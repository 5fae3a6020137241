import Stencil.Render.Basic

/-!
# What lasts through a rendering

`after` is the session in which an action ends, whether it succeeds or fails. A relation between
sessions that every step keeps, and every bracket, holds between the start and the end of any
rendering.
-/

namespace Stencil.Render

open Markup

/-- The session in which an action ends, however it ends. -/
def after {α : Type} (action : Render α) (s : Session) : Session :=
  match action s with
  | .ok _ s' => s'
  | .error _ s' => s'

/-- However `action` ends, the session it starts in stands in `R` to the one it ends in. -/
def Along {α : Type} (R : Session → Session → Prop) (action : Render α) : Prop :=
  ∀ s, R s (after action s)

/-! ## Ends of actions -/

section

variable {α β : Type} {s s' : Session}

theorem after_of_ok {action : Render α} {a : α} (h : action s = .ok a s') :
    after action s = s' := by
  rw [after, h]

theorem after_of_error {action : Render α} {e : Error} (h : action s = .error e s') :
    after action s = s' := by
  rw [after, h]

theorem after_bind (x : Render α) (f : α → Render β) :
    after (x >>= f) s =
      match x s with
      | .ok a s' => after (f a) s'
      | .error _ s' => s' := by
  show after (EStateM.bind x f) s = _
  unfold after EStateM.bind
  cases x s <;> rfl

theorem after_ensuring (restore : Session → Session) (action : Render α) :
    after (ensuring restore action) s = restore (after action s) := by
  unfold after ensuring
  cases action s <;> rfl

theorem after_inFrame (action : Render α) :
    after (inFrame action) s =
      let s' := after action { s with scope := s.scope.push [] }
      { s' with scope := s'.scope.dropTop } := after_ensuring ..

theorem after_capture (action : Render Unit) :
    after (capture action) s =
      { after action { s with output := "" } with output := s.output } := by
  unfold after capture
  cases action { s with output := "" } <;> rfl

theorem after_insidePartial (name : String) (line : Int) (action : Render α) :
    after (insidePartial name line action) s =
      { after action
          { s with
            template := some name, isPartial := true, depth := s.depth + 1
            chain := s.chain ++ link s.template line } with
        template := s.template, isPartial := s.isPartial, depth := s.depth, chain := s.chain } :=
  after_ensuring ..

theorem bind_eq_ok {x : Render α} {f : α → Render β} {b : β} :
    (x >>= f) s = .ok b s' ↔ ∃ a s₁, x s = .ok a s₁ ∧ f a s₁ = .ok b s' := by
  show EStateM.bind x f s = .ok b s' ↔ _
  unfold EStateM.bind
  constructor
  · intro h
    cases hx : x s with
    | ok a s₁ =>
      rw [hx] at h
      exact ⟨a, s₁, rfl, h⟩
    | error e s₁ =>
      rw [hx] at h
      cases h
  · rintro ⟨a, s₁, hx, hf⟩
    rw [hx]
    exact hf

end

/-! ## Two actions in a row -/

section

variable {α β : Type} {R : Session → Session → Prop}

theorem Along.andThen (trans : ∀ ⦃s s' s''⦄, R s s' → R s' s'' → R s s'') {x : Render α}
    {f : α → Render β} (hx : Along R x) (hf : ∀ a, Along R (f a)) : Along R (x >>= f) := by
  intro s
  have hs := hx s
  rw [after_bind]
  cases h : x s with
  | ok a s' =>
    rw [after_of_ok h] at hs
    exact trans hs (hf a s')
  | error e s' => rwa [after_of_error h] at hs

theorem Along.beforeStill {x : Render α} {f : α → Render β} (hx : Along R x)
    (hf : ∀ a, Along Eq (f a)) : Along R (x >>= f) := by
  intro s
  have hs := hx s
  rw [after_bind]
  cases h : x s with
  | ok a s' =>
    rw [after_of_ok h] at hs
    show R s (after (f a) s')
    rwa [← hf a s']
  | error e s' => rwa [after_of_error h] at hs

theorem Along.afterStill (refl : ∀ s, R s s) {x : Render α} {f : α → Render β} (hx : Along Eq x)
    (hf : ∀ a, Along R (f a)) : Along R (x >>= f) := by
  intro s
  have hs := hx s
  rw [after_bind]
  cases h : x s with
  | ok a s' =>
    rw [after_of_ok h] at hs
    subst hs
    exact hf a s
  | error e s' =>
    rw [after_of_error h] at hs
    subst hs
    exact refl s

theorem Along.mono {R' : Session → Session → Prop} {action : Render α} (h : Along R action)
    (hle : ∀ s s', R s s' → R' s s') : Along R' action := fun s => hle s _ (h s)

/-- An action that leaves the session as it is. -/
abbrev Still (action : Render α) : Prop := Along Eq action

theorem Still.andThen {x : Render α} {f : α → Render β} (hx : Still x) (hf : ∀ a, Still (f a)) :
    Still (x >>= f) := Along.andThen (R := Eq) (fun _ _ _ => Eq.trans) hx hf

theorem Still.along {action : Render α} (h : Still action) (refl : ∀ s, R s s) :
    Along R action := by
  intro s
  rw [← h s]
  exact refl s

end

/-! ## Actions that only look -/

section

variable {α : Type} (env : Environment)

theorem still_pure (a : α) : Still (pure a) := fun _ => rfl

theorem still_get : Still get := fun _ => rfl

theorem still_throw (e : Error) : Still (throw e : Render α) := fun _ => rfl

theorem still_refuse (name : String) (line : Int) : Still (refuse env name line : Render α) :=
  fun _ => rfl

theorem still_evaluating (line : Option Int) (eval : Setting → Except Error α) :
    Still (evaluating env line eval) := by
  intro s
  unfold after evaluating
  cases eval (s.setting env line) <;> rfl

theorem still_evaluate (line : Option Int) (e : Expr) : Still (evaluate env line e) :=
  still_evaluating env line _

theorem Along.writeValue {R : Session → Session → Prop} (refl : ∀ s, R s s)
    (hwrite : ∀ text, Along R (write text)) (v : Value) : Along R (Render.writeValue env v) := by
  unfold Render.writeValue
  split
  · exact hwrite _
  · exact (still_throw _).along refl

theorem evaluate_of_ok {line : Option Int} {e : Expr} {s : Session} {v : Value}
    (h : e.eval (s.setting env line) = .ok v) : evaluate env line e s = .ok v s := by
  rw [evaluate, evaluating, h]

theorem evaluate_of_error {line : Option Int} {e : Expr} {s : Session} {error : Error}
    (h : e.eval (s.setting env line) = .error error) :
    evaluate env line e s = .error error s := by
  rw [evaluate, evaluating, h]

theorem still_loopArgument (line : Int) (e : Option Expr) : Still (loopArgument env line e) := by
  cases e with
  | none => exact still_pure _
  | some e =>
    refine (still_evaluate env _ e).andThen fun v => ?_
    split
    · exact still_pure _
    · exact still_evaluating env _ _

theorem still_loopItems (line : Int) (head : LoopHead) : Still (loopItems env line head) := by
  refine (still_evaluate env _ _).andThen fun v => ?_
  split
  · exact still_throw _
  · refine (still_loopArgument env _ _).andThen fun offset => ?_
    exact (still_loopArgument env _ _).andThen fun limit => still_pure _

theorem still_partialName (line : Int) (i : Inclusion) : Still (partialName env line i) :=
  (still_evaluate env _ _).andThen fun _ => still_evaluating env _ _

theorem still_boundValue (line : Int) (i : Inclusion) (name : String) :
    Still (boundValue env line i name) := by
  unfold boundValue
  split
  · exact still_evaluate env _ _
  · refine still_get.andThen fun s => ?_
    split <;> exact still_pure _

end

/-! ## Partials that are read -/

/-- The sessions differ in nothing but what was read. -/
def ReadsMore (s s' : Session) : Prop :=
  ∃ reads partials, s' = { s with reads := reads, partials := partials }

theorem readsMore_trans ⦃s s' s'' : Session⦄ (h : ReadsMore s s') (h' : ReadsMore s' s'') :
    ReadsMore s s'' := by
  obtain ⟨_, _, rfl⟩ := h
  obtain ⟨reads, partials, rfl⟩ := h'
  exact ⟨reads, partials, rfl⟩

theorem Still.readsMore {α : Type} {action : Render α} (h : Still action) :
    Along ReadsMore action := h.along fun s => ⟨s.reads, s.partials, rfl⟩

theorem readsMore_loadTemplate (env : Environment) (name : String) (isPartial : Bool) :
    Along ReadsMore (loadTemplate env name isPartial) := by
  intro s
  unfold after loadTemplate
  cases env.load name isPartial <;> cases env.loader <;> exact ⟨_, _, rfl⟩

theorem readsMore_loadPartial (env : Environment) (name : String) :
    Along ReadsMore (loadPartial env name) := by
  refine still_get.readsMore.andThen readsMore_trans fun s => ?_
  split
  · exact (still_pure _).readsMore
  · refine (readsMore_loadTemplate env name true).andThen readsMore_trans fun t => ?_
    have hremember : Along ReadsMore
        (modify fun s => { s with partials := s.partials ++ [(name, t)] } : Render PUnit) :=
      fun s => ⟨s.reads, s.partials ++ [(name, t)], rfl⟩
    exact hremember.andThen readsMore_trans fun _ => (still_pure t).readsMore

/-! ## Lasting relations -/

/--
A relation that the steps of a rendering keep, with nothing said about where partials come from.
A bracket counts as one step, since its end undoes some of what was done inside of it.
-/
structure Lasting (R : Session → Session → Prop) : Prop where
  refl : ∀ s, R s s
  trans : ∀ ⦃s s' s''⦄, R s s' → R s' s'' → R s s''
  write : ∀ text, Along R (write text)
  bind : ∀ name v, Along R (bind name v)
  moveOn : ∀ owner index0,
    Along R (modify fun s => { s with scope := s.scope.advance owner index0 })
  remember : ∀ text, Along R (modify fun s => { s with lastChanged := some text })
  inFrame : ∀ {action : Render Unit}, Along R action → Along R (inFrame action)
  capture : ∀ {action : Render Unit}, Along R action → Along R (capture action)
  insidePartial : ∀ {name line} {action : Render Unit}, Along R action →
    Along R (insidePartial name line action)

/-- Finding partials keeps `R`, and so does rendering the nodes of one. -/
structure Partials.Keep (R : Session → Session → Prop) (partials : Partials) : Prop where
  find : ∀ name, Along R (partials.find name)
  enter : ∀ enter ∈ partials.enter, ∀ nodes, Along R (enter nodes)

namespace Lasting

variable {R : Session → Session → Prop} {α β : Type} {env : Environment}

theorem still (h : Lasting R) {action : Render α} (ha : Still action) : Along R action :=
  ha.along h.refl

theorem andThen (h : Lasting R) {x : Render α} {f : α → Render β} (hx : Along R x)
    (hf : ∀ a, Along R (f a)) : Along R (x >>= f) := Along.andThen h.trans hx hf

theorem evaluate (h : Lasting R) (line : Option Int) (e : Expr) :
    Along R (Render.evaluate env line e) := h.still (still_evaluate env line e)

theorem writeValue (h : Lasting R) (v : Value) : Along R (Render.writeValue env v) :=
  .writeValue env h.refl h.write v

theorem output (h : Lasting R) (line : Option Int) (e : Expr) :
    Along R (Render.evaluate env line e >>= fun v => Render.writeValue env v) :=
  h.andThen (h.evaluate line e) fun _ => h.writeValue _

theorem assign (h : Lasting R) (line : Option Int) (e : Expr) (name : String) :
    Along R (Render.evaluate env line e >>= fun v => Render.bind name v) :=
  h.andThen (h.evaluate line e) fun _ => h.bind _ _

theorem inline (h : Lasting R) (tag : InlineTag) (markup : String) :
    Along R (get >>= fun s => Render.write (tag.write markup s.view)) :=
  h.andThen (h.still still_get) fun _ => h.write _

/-! ## Loops and inclusions -/

theorem advance (h : Lasting R) (owner : LoopOwner) (index0 : Nat) (name : String) (item : Value) :
    Along R (Render.advance owner index0 name item) :=
  h.andThen (h.moveOn _ _) fun _ => h.bind _ _

theorem iterate (h : Lasting R) {owner : LoopOwner} {name : String} {body : Render Unit}
    (hb : Along R body) (index0 : Nat) (items : List Value) :
    Along R (Render.iterate owner name body index0 items) := by
  induction items generalizing index0 with
  | nil => exact h.still (still_pure _)
  | cons item items ih =>
    exact h.andThen (h.advance _ _ _ _) fun _ => h.andThen hb fun _ => ih _

theorem runLoop (h : Lasting R) {name : String} {items : List Value} {body : Render Unit}
    (hb : Along R body) : Along R (Render.runLoop name items body) := by
  refine h.inFrame (h.andThen (h.still still_get) fun s => ?_)
  exact h.andThen (h.bind _ _) fun _ => h.iterate hb _ _

theorem bindAttributes (h : Lasting R) (line : Int) (attributes : List (String × Expr)) :
    Along R (Render.bindAttributes env line attributes) := by
  induction attributes with
  | nil => exact h.still (still_pure _)
  | cons first rest ih =>
    refine h.andThen (h.evaluate _ _) fun v => ?_
    exact h.andThen (h.bind _ _) fun _ => ih

theorem renderEach (h : Lasting R) {name : String} {body : Render Unit} (hb : Along R body)
    (vs : List Value) : Along R (Render.renderEach name body vs) := by
  induction vs with
  | nil => exact h.still (still_pure _)
  | cons v vs ih => exact h.andThen (h.bind _ _) fun _ => h.andThen hb fun _ => ih

theorem renderBound (h : Lasting R) {name : String} {body : Render Unit} (hb : Along R body)
    (bound : Bound) : Along R (Render.renderBound name body bound) := by
  cases bound <;> exact h.renderEach hb _

theorem renderInclusion (h : Lasting R) {partials : Partials} (hp : partials.Keep R) (line : Int)
    (i : Inclusion) : Along R (Render.renderInclusion env partials line i) := by
  refine h.andThen (h.still (still_partialName env _ _)) fun name => ?_
  refine h.andThen (hp.find name) fun t => ?_
  refine h.andThen (h.still (still_boundValue env _ _ _)) fun v => ?_
  split
  · exact h.still (still_refuse env _ _)
  · next enter heq =>
    refine h.insidePartial (h.inFrame (h.andThen (h.bindAttributes _ _) fun _ => ?_))
    exact h.renderBound (hp.enter enter heq t.nodes) _

/-! ## Nodes -/

theorem writeChanged (h : Lasting R) (text : String) : Along R (Render.writeChanged text) := by
  refine h.andThen (h.still still_get) fun s => ?_
  split
  · exact h.still (still_pure _)
  · exact h.andThen (h.remember _) fun _ => h.write _

mutual

theorem renderNode (h : Lasting R) {partials : Partials} (hp : partials.Keep R) (node : Node) :
    Along R (renderNode env partials node) := by
  cases node with
  | text line value => exact h.write _
  | output line markup e => exact h.output _ _
  | raw line name body => exact h.write _
  | comment line name body => exact h.still (still_pure _)
  | assign line assignment => exact h.assign _ _ _
  | ifChanged line body =>
    exact h.andThen (h.capture (h.inFrame (renderNodes h hp body))) fun text => h.writeChanged _
  | conditional line isNegated branches otherwise =>
    refine h.andThen (renderBranches h hp line isNegated branches) fun rendered => ?_
    split
    · exact h.still (still_pure _)
    · exact renderNodes h hp otherwise
  | loop line head body otherwise =>
    refine h.andThen (h.still (still_loopItems env _ _)) fun items => ?_
    split
    · exact renderNodes h hp otherwise
    · exact h.runLoop (renderNodes h hp body)
  | inclusion line i => exact h.renderInclusion hp _ _
  | inline line tag markup => exact h.inline _ _

theorem renderNodes (h : Lasting R) {partials : Partials} (hp : partials.Keep R)
    (nodes : List Node) : Along R (renderNodes env partials nodes) := by
  cases nodes with
  | nil => exact h.still (still_pure _)
  | cons node nodes => exact h.andThen (renderNode h hp node) fun _ => renderNodes h hp nodes

theorem renderBranches (h : Lasting R) {partials : Partials} (hp : partials.Keep R) (line : Nat)
    (isNegated : Bool) (branches : List (Chain × List Node)) :
    Along R (renderBranches env partials line isNegated branches) := by
  cases branches with
  | nil => exact h.still (still_pure _)
  | cons branch rest =>
    obtain ⟨condition, body⟩ := branch
    refine h.andThen (h.still (still_evaluating env _ _)) fun holds => ?_
    split
    · exact h.andThen (renderNodes h hp body) fun _ => h.still (still_pure _)
    · exact renderBranches h hp line false rest

end

theorem renderWithin (h : Lasting R) {find : String → Render Template}
    (hfind : ∀ name, Along R (find name)) (room : Nat) (nodes : List Node) :
    Along R (renderWithin env find room nodes) := by
  induction room generalizing nodes with
  | zero => exact h.renderNodes ⟨hfind, by simp⟩ nodes
  | succ room ih =>
    refine h.renderNodes ⟨hfind, ?_⟩ nodes
    rintro enter ⟨⟩
    exact ih

theorem nodes (h : Lasting R) (hload : ∀ name, Along R (loadPartial env name))
    (nodes : List Node) : Along R (Render.nodes env nodes) :=
  h.andThen (h.still still_get) fun _ => h.renderWithin hload _ _

end Lasting

end Stencil.Render
