import Mathlib.Logic.Function.Iterate
import Stencil.Proofs.Render.Place

/-!
# Renderings moment by moment

A machine that renders: what is still to do is a list of tasks, and a step carries out the first of
them. It knows of no room for inclusions, only of the depth of the session. Every rendering is a
run of it that ends.
-/

namespace Stencil.Render

open Markup Session

/-! ## Tasks -/

/--
What a rendering has still to do. The last three close what an earlier task opened, and an error on
its way out does not pass them by.
-/
inductive Task
  | node (node : Node)
  | nodes (nodes : List Node)
  | branches (line : Nat) (isNegated : Bool) (branches : List (Chain × List Node))
      (otherwise : List Node)
  | loop (name : String) (body : List Node) (items : List Value)
  | items (owner : LoopOwner) (name : String) (body : List Node) (index0 : Nat)
      (items : List Value)
  | changed (text : String)
  | entry (line : Int) (inclusion : Inclusion) (name : String) (t : Template) (v : Value)
  | attributes (line : Int) (attributes : List (String × Expr))
  | each (name : String) (body : List Node) (vs : List Value)
  | leaveFrame
  | leaveCapture (outer : String)
  | leavePartial (template : Option String) (isPartial : Bool) (depth : Nat) (chain : IncludeChain)

/-- What an error does to the session on its way past a task. -/
def Task.undo : Task → Session → Session
  | .leaveFrame, s => { s with scope := s.scope.dropTop }
  | .leaveCapture outer, s => { s with output := outer }
  | .leavePartial template isPartial depth chain, s => { s with template, isPartial, depth, chain }
  | _, s => s

/-- What an inclusion has before it enters its partial: the name, the partial, and the value. -/
def needs (env : Environment) (line : Int) (i : Inclusion) : Render (String × Template × Value) :=
  do
    let name ← partialName env line i
    let t ← loadPartial env name
    let v ← boundValue env line i name
    return (name, t, v)

/-- The values for which a partial is rendered in turn. -/
def Bound.values : Bound → List Value
  | .scalar v => [v]
  | .sequence vs => vs

/-- Begins a node, and says what is left to do of it. -/
def beginNode (env : Environment) : Node → Render (List Task)
  | .text _ value => do
    write value
    return []
  | .output line _ e => do
    let v ← evaluate env (some line) e
    writeValue env v
    return []
  | .raw _ _ body => do
    write body
    return []
  | .comment .. => return []
  | .assign line assignment => do
    let v ← evaluate env (some line) assignment.source
    bind assignment.target v
    return []
  | .ifChanged _ body => fun s =>
    .ok [.nodes body, .leaveFrame, .leaveCapture s.output]
      { s with output := "", scope := s.scope.push [] }
  | .conditional line isNegated branches otherwise =>
    return [.branches line isNegated branches otherwise]
  | .loop line head body otherwise => do
    let items ← loopItems env line head
    return if items.isEmpty then [.nodes otherwise] else [.loop head.item body items]
  | .inclusion line i => do
    let found ← needs env line i
    return [.entry line i found.1 found.2.1 found.2.2]
  | .inline _ tag markup => do
    write (tag.write markup (← get).view)
    return []

/-- What is to be done inside a partial, and when it is left. -/
def entryTasks (line : Int) (i : Inclusion) (name : String) (t : Template) (v : Value)
    (s : Session) : List Task :=
  [.attributes line i.attributes, .each (bindingName name) t.nodes (Bound.ofValue v).values,
    .leaveFrame, .leavePartial s.template s.isPartial s.depth s.chain]

def entered (name : String) (line : Int) (s : Session) : Session :=
  { s with
    template := some name, isPartial := true, depth := s.depth + 1
    chain := s.chain ++ link s.template line, scope := s.scope.push [] }

/-- Enters a partial, unless one inclusion more is too many. -/
def enterPartial (env : Environment) (line : Int) (i : Inclusion) (name : String) (t : Template)
    (v : Value) : Render (List Task) := fun s =>
  if env.maxDepth ≤ s.depth then refuse env name line s
  else .ok (entryTasks line i name t v s) (entered name line s)

/-- Does the first bit of a task, and says what is to be done before anything else. -/
def Task.carryOut (env : Environment) : Task → Render (List Task)
  | .node n => beginNode env n
  | .nodes [] => return []
  | .nodes (n :: ns) => return [.node n, .nodes ns]
  | .branches _ _ [] otherwise => return [.nodes otherwise]
  | .branches line isNegated ((condition, body) :: rest) otherwise => do
    let holds ← evaluating env (some (line : Int)) condition.eval
    return if holds != isNegated then [.nodes body] else [.branches line false rest otherwise]
  | .loop name body vs => do
    modify fun s => { s with scope := s.scope.push [] }
    let owner := LoopOwner.running (← get).scope.depth
    bind "forloop" (.loop ⟨owner, 0, vs.length⟩)
    return [.items owner name body 0 vs, .leaveFrame]
  | .items _ _ _ _ [] => return []
  | .items owner name body index0 (v :: vs) => do
    advance owner index0 name v
    return [.nodes body, .items owner name body (index0 + 1) vs]
  | .changed text => do
    writeChanged text
    return []
  | .entry line i name t v => enterPartial env line i name t v
  | .attributes _ [] => return []
  | .attributes line ((key, e) :: rest) => do
    let v ← evaluate env (some line) e
    bind key v
    return [.attributes line rest]
  | .each _ _ [] => return []
  | .each name body (v :: vs) => do
    bind name v
    return [.nodes body, .each name body vs]
  | .leaveFrame => fun s => .ok [] (Task.leaveFrame.undo s)
  | .leaveCapture outer => fun s => .ok [.changed s.output] ((Task.leaveCapture outer).undo s)
  | .leavePartial template isPartial depth chain => fun s =>
    .ok [] ((Task.leavePartial template isPartial depth chain).undo s)

/-! ## Moments -/

/-- A moment of a rendering; `error` is on its way out. -/
structure Moment where
  tasks : List Task
  session : Session
  error : Option Error

namespace Moment

/-- Where the first task leads; the others come after it. -/
def ofResult (rest : List Task) : EStateM.Result Error Session (List Task) → Moment
  | .ok more s => ⟨more ++ rest, s, none⟩
  | .error e s => ⟨rest, s, some e⟩

/-- The moment at which an action ended that came before the tasks `rest`. -/
def ended (rest : List Task) : EStateM.Result Error Session Unit → Moment
  | .ok () s => ⟨rest, s, none⟩
  | .error e s => ⟨rest, s, some e⟩

/-- The next moment. Where nothing is left to do, nothing happens any more. -/
def next (env : Environment) (m : Moment) : Moment :=
  match m.tasks, m.error with
  | [], _ => m
  | task :: rest, none => .ofResult rest (task.carryOut env m.session)
  | task :: rest, some e => ⟨rest, task.undo m.session, some e⟩

def isLast (m : Moment) : Bool := m.tasks.isEmpty

def first (nodes : List Node) (s : Session) : Moment := ⟨[.nodes nodes], s, none⟩

/-- The text that a rendering wrote, or the error that ended it. -/
def outcome (m : Moment) : Except Error String :=
  match m.error with
  | none => .ok m.session.output
  | some e => .error e

/-- One moment comes some steps after another, or is the same. -/
def Leads (env : Environment) (m m' : Moment) : Prop := ∃ n, (next env)^[n] m = m'

section

variable {env : Environment} {m m' m'' : Moment}

theorem Leads.refl : Leads env m m := ⟨0, rfl⟩

theorem Leads.trans (h : Leads env m m') (h' : Leads env m' m'') : Leads env m m'' := by
  obtain ⟨n, rfl⟩ := h
  obtain ⟨n', rfl⟩ := h'
  exact ⟨n' + n, Function.iterate_add_apply _ _ _ _⟩

theorem Leads.step (h : Leads env (next env m) m') : Leads env m m' := by
  obtain ⟨n, rfl⟩ := h
  exact ⟨n + 1, rfl⟩

theorem Leads.task {task : Task} {rest : List Task} {s : Session}
    (h : Leads env (.ofResult rest (task.carryOut env s)) m') :
    Leads env ⟨task :: rest, s, none⟩ m' := Leads.step h

theorem Leads.undo {task : Task} {rest : List Task} {s : Session} {e : Error}
    (h : Leads env ⟨rest, task.undo s, some e⟩ m') :
    Leads env ⟨task :: rest, s, some e⟩ m' := Leads.step h

end

end Moment

/-! ## Tasks that do what an action does -/

open Moment

/--
Carried out in a session inside of `d` inclusions, the tasks have the effect of the action, whatever
is to be done after them.
-/
def Does (env : Environment) (d : Nat) (tasks : List Task) (action : Render Unit) : Prop :=
  ∀ s rest, s.depth = d → Leads env ⟨tasks ++ rest, s, none⟩ (ended rest (action s))

def Task.isPlain : Task → Bool
  | .leaveFrame | .leaveCapture _ | .leavePartial .. => false
  | _ => true

theorem Task.undo_of_isPlain {task : Task} (h : task.isPlain) (s : Session) : task.undo s = s := by
  cases task <;> first | rfl | simp [isPlain] at h

section

variable {env : Environment} {d : Nat} {α : Type}

theorem does_nil : Does env d [] (pure ()) := fun _ _ _ => .refl

theorem Does.andThen {tasks : List Task} {task : Task} {x : Render Unit} {f : Unit → Render Unit}
    (hx : Does env d tasks x) (hplace : Along SamePlace x) (hplain : task.isPlain)
    (hf : Does env d [task] (f ())) : Does env d (tasks ++ [task]) (x >>= f) := by
  intro s rest hd
  have hx := hx s (task :: rest) hd
  have hs := hplace s
  rw [List.append_assoc]
  refine hx.trans ?_
  show Leads env _ (ended rest (EStateM.bind x f s))
  unfold EStateM.bind
  cases h : x s with
  | ok a s' =>
    rw [after_of_ok h] at hs
    exact hf s' rest (hs.depth.trans hd)
  | error e s' =>
    refine Leads.undo ?_
    rw [Task.undo_of_isPlain hplain]
    exact .refl

theorem does_first {task : Task} {x : Render α} {tasks : α → List Task} {f : α → Render Unit}
    (hcarry : task.carryOut env = x >>= fun a => pure (tasks a)) (hplace : Along SamePlace x)
    (hf : ∀ a, Does env d (tasks a) (f a)) : Does env d [task] (x >>= f) := by
  intro s rest hd
  have hs := hplace s
  refine Leads.task ?_
  rw [hcarry]
  show Leads env (ofResult rest (EStateM.bind x (fun a => pure (tasks a)) s))
    (ended rest (EStateM.bind x f s))
  unfold EStateM.bind
  cases h : x s with
  | ok a s' =>
    rw [after_of_ok h] at hs
    exact hf a s' rest (hs.depth.trans hd)
  | error e s' => exact .refl

theorem does_once {task : Task} {x : Render Unit}
    (hcarry : task.carryOut env = x >>= fun _ => pure []) (hplace : Along SamePlace x) :
    Does env d [task] x := by
  have h : Does env d [task] (x >>= fun _ => pure ()) :=
    does_first hcarry hplace fun _ => does_nil
  rwa [show (x >>= fun _ => pure ()) = x from bind_pure_unit] at h

theorem does_pure {task : Task} {tasks : List Task} {x : Render Unit}
    (hcarry : task.carryOut env = pure tasks) (h : Does env d tasks x) : Does env d [task] x :=
  fun s rest hd => Leads.task (hcarry ▸ h s rest hd)

theorem Does.closing {tasks : List Task} {task : Task} {x : Render Unit}
    (hx : Does env d tasks x) (hcarry : ∀ s, task.carryOut env s = .ok [] (task.undo s)) :
    Does env d (tasks ++ [task]) (ensuring task.undo x) := by
  intro s rest hd
  rw [List.append_assoc]
  refine (hx s (task :: rest) hd).trans ?_
  unfold ensuring
  cases x s with
  | ok a s' =>
    refine Leads.task ?_
    rw [hcarry]
    exact .refl
  | error e s' => exact Leads.undo .refl

/-! ## Loops and attributes -/

theorem does_items {owner : LoopOwner} {name : String} {body : List Node} {x : Render Unit}
    (hx : Does env d [.nodes body] x) (hplace : Along SamePlace x) (index0 : Nat)
    (vs : List Value) :
    Does env d [.items owner name body index0 vs] (iterate owner name x index0 vs) := by
  induction vs generalizing index0 with
  | nil => exact does_pure rfl does_nil
  | cons v vs ih =>
    refine does_first rfl (lasting_samePlace.advance owner index0 name v) fun _ => ?_
    exact hx.andThen hplace rfl (ih _)

theorem does_loop {name : String} {body : List Node} {x : Render Unit}
    (hx : Does env d [.nodes body] x) (hplace : Along SamePlace x) (vs : List Value) :
    Does env d [.loop name body vs] (runLoop name vs x) := by
  intro s rest hd
  exact Leads.task (((does_items hx hplace 0 vs).closing fun _ => rfl) _ rest hd)

theorem does_each {name : String} {body : List Node} {x : Render Unit}
    (hx : Does env d [.nodes body] x) (hplace : Along SamePlace x) (vs : List Value) :
    Does env d [.each name body vs] (renderEach name x vs) := by
  induction vs with
  | nil => exact does_pure rfl does_nil
  | cons v vs ih =>
    exact does_first rfl (lasting_samePlace.bind _ _) fun _ => hx.andThen hplace rfl ih

theorem does_changed (text : String) : Does env d [.changed text] (writeChanged text) :=
  does_once rfl (lasting_samePlace.writeChanged text)

theorem leads_captured {x : Render Unit} (s : Session) (rest : List Task) (hd : s.depth = d)
    (hplace : Along SamePlace x) :
    Leads env (ended (.leaveCapture s.output :: rest) (x { s with output := "" }))
      (ended rest ((capture x >>= writeChanged) s)) := by
  have hs := (hplace { s with output := "" }).depth
  show Leads env _ (ended rest (EStateM.bind (capture x) writeChanged s))
  unfold EStateM.bind capture
  cases h : x { s with output := "" } with
  | ok a s' =>
    rw [after_of_ok h] at hs
    refine Leads.task ?_
    exact does_changed s'.output { s' with output := s.output } rest (hs.trans hd)
  | error e s' => exact Leads.undo .refl

theorem does_attributes (line : Int) (attributes : List (String × Expr)) :
    Does env d [.attributes line attributes] (bindAttributes env line attributes) := by
  induction attributes with
  | nil => exact does_pure rfl does_nil
  | cons first rest ih =>
    obtain ⟨key, e⟩ := first
    have h : Does env d [.attributes line ((key, e) :: rest)]
        ((evaluate env (some line) e >>= fun v => bind key v) >>= fun _ =>
          bindAttributes env line rest) :=
      does_first (bind_assoc _ _ _).symm (lasting_samePlace.assign _ _ _) fun _ => ih
    rwa [bind_assoc] at h

end

/-! ## Inclusions -/

/--
Partials as the machine has them `d` inclusions deep: they come from the session, and there is a way
to render one exactly if one inclusion more may nest.
-/
structure Partials.Agree (env : Environment) (d : Nat) (partials : Partials) : Prop where
  find : partials.find = loadPartial env
  full : partials.enter = none → env.maxDepth ≤ d
  enter : ∀ enter, partials.enter = some enter → ¬ env.maxDepth ≤ d ∧
    (∀ ns, Along SamePlace (enter ns)) ∧ ∀ ns, Does env (d + 1) [.nodes ns] (enter ns)

section

variable {env : Environment} {d : Nat} {partials : Partials}

theorem Partials.Agree.keep (hp : partials.Agree env d) : partials.Keep SamePlace where
  find := hp.find ▸ samePlace_loadPartial env
  enter enter h := (hp.enter enter h).2.1

theorem samePlace_needs (line : Int) (i : Inclusion) : Along SamePlace (needs env line i) := by
  refine lasting_samePlace.andThen (lasting_samePlace.still (still_partialName env _ _)) fun n => ?_
  refine lasting_samePlace.andThen (samePlace_loadPartial env n) fun t => ?_
  have hbound : ∀ name, Along SamePlace (boundValue env line i name) := fun name =>
    lasting_samePlace.still (still_boundValue env _ _ _)
  refine lasting_samePlace.andThen (hbound n) fun v => ?_
  exact lasting_samePlace.still (still_pure _)

/-- What an inclusion does once it has what it needs. -/
def enterOrRefuse (env : Environment) (enter : Option (List Node → Render Unit)) (line : Int)
    (i : Inclusion) (found : String × Template × Value) : Render Unit :=
  match enter with
  | none => refuse env found.1 line
  | some enter =>
    insidePartial found.1 line <| inFrame do
      bindAttributes env line i.attributes
      renderBound (bindingName found.1) (enter found.2.1.nodes) (.ofValue found.2.2)

theorem renderInclusion_eq (hfind : partials.find = loadPartial env) (line : Int) (i : Inclusion) :
    renderInclusion env partials line i =
      needs env line i >>= enterOrRefuse env partials.enter line i := by
  unfold renderInclusion needs enterOrRefuse
  rw [hfind]
  simp only [bind_assoc]
  rfl

theorem renderBound_eq (name : String) (body : Render Unit) (b : Bound) :
    renderBound name body b = renderEach name body b.values := by
  cases b <;> rfl

theorem does_entry (hp : partials.Agree env d) (line : Int) (i : Inclusion)
    (found : String × Template × Value) :
    Does env d [.entry line i found.1 found.2.1 found.2.2]
      (enterOrRefuse env partials.enter line i found) := by
  intro s rest hd
  refine Leads.task ?_
  show Leads env (ofResult rest (enterPartial env line i _ _ _ s)) _
  unfold enterPartial enterOrRefuse
  cases h : partials.enter with
  | none =>
    rw [if_pos (hd ▸ hp.full h)]
    exact .refl
  | some enter =>
    obtain ⟨hroom, hplace, hdoes⟩ := hp.enter enter h
    rw [if_neg (hd ▸ hroom)]
    simp only [renderBound_eq]
    have heach : Does env (d + 1)
        [.each (bindingName found.1) found.2.1.nodes (Bound.ofValue found.2.2).values]
        (renderEach (bindingName found.1) (enter found.2.1.nodes)
          (Bound.ofValue found.2.2).values) :=
      does_each (hdoes found.2.1.nodes) (hplace _) _
    have hbody : Does env (d + 1)
        ([.attributes line i.attributes] ++
          [.each (bindingName found.1) found.2.1.nodes (Bound.ofValue found.2.2).values])
        (bindAttributes env line i.attributes >>= fun _ => _) :=
      (does_attributes line _).andThen (lasting_samePlace.bindAttributes _ _) rfl heach
    have hframe : Does env (d + 1) (_ ++ [.leaveFrame]) _ := hbody.closing fun _ => rfl
    have hall : Does env (d + 1)
        (_ ++ [.leavePartial s.template s.isPartial s.depth s.chain]) _ :=
      hframe.closing fun _ => rfl
    exact hall _ rest (congrArg (· + 1) hd)

/-! ## Nodes -/

mutual

theorem does_node (hp : partials.Agree env d) (node : Node) :
    Does env d [.node node] (renderNode env partials node) := by
  have hplace : ∀ ns, Along SamePlace (renderNodes env partials ns) :=
    lasting_samePlace.renderNodes hp.keep
  cases node with
  | text line value => exact does_once rfl (lasting_samePlace.write _)
  | output line markup e => exact does_once (bind_assoc _ _ _).symm (lasting_samePlace.output _ _)
  | raw line name body => exact does_once rfl (lasting_samePlace.write _)
  | comment line name body => exact does_pure rfl does_nil
  | assign line assignment =>
    exact does_once (bind_assoc _ _ _).symm (lasting_samePlace.assign _ _ _)
  | ifChanged line body =>
    intro s rest hd
    have hframe : Does env d ([.nodes body] ++ [.leaveFrame])
        (ensuring Task.leaveFrame.undo (renderNodes env partials body)) :=
      (does_nodes hp body).closing fun _ => rfl
    have hbody := hframe { s with output := "", scope := s.scope.push [] }
      (.leaveCapture s.output :: rest) hd
    refine Leads.task (hbody.trans ?_)
    exact leads_captured s rest hd (lasting_samePlace.inFrame (hplace body))
  | conditional line isNegated branches otherwise =>
    exact does_pure rfl (does_branches hp line isNegated branches (does_nodes hp otherwise))
  | loop line head body otherwise =>
    refine does_first rfl (lasting_samePlace.still (still_loopItems env _ _)) fun items => ?_
    split
    · exact does_nodes hp otherwise
    · exact does_loop (does_nodes hp body) (hplace body) items
  | inclusion line i =>
    have h : Does env d [.node (.inclusion line i)]
        (needs env line i >>= enterOrRefuse env partials.enter line i) :=
      does_first rfl (samePlace_needs _ _) (does_entry hp line i)
    rwa [← renderInclusion_eq hp.find] at h
  | inline line tag markup =>
    exact does_once (bind_assoc _ _ _).symm (lasting_samePlace.inline _ _)

theorem does_nodes (hp : partials.Agree env d) (ns : List Node) :
    Does env d [.nodes ns] (renderNodes env partials ns) := by
  cases ns with
  | nil => exact does_pure rfl does_nil
  | cons node ns =>
    have hplace : Along SamePlace (renderNode env partials node) :=
      lasting_samePlace.renderNode hp.keep node
    exact does_pure rfl ((does_node hp node).andThen hplace rfl (does_nodes hp ns))

theorem does_branches (hp : partials.Agree env d) (line : Nat) (isNegated : Bool)
    (branches : List (Chain × List Node)) {otherwise : List Node}
    (hotherwise : Does env d [.nodes otherwise] (renderNodes env partials otherwise)) :
    Does env d [.branches line isNegated branches otherwise] (do
      if ← renderBranches env partials line isNegated branches then pure ()
      else renderNodes env partials otherwise) := by
  cases branches with
  | nil => exact does_pure rfl hotherwise
  | cons branch rest =>
    obtain ⟨condition, body⟩ := branch
    rw [renderBranches, bind_assoc]
    refine does_first rfl (lasting_samePlace.still (still_evaluating env _ _)) fun holds => ?_
    split
    · simp only [bind_assoc, pure_bind, if_true]
      rw [show (renderNodes env partials body >>= fun _ => pure ()) = _ from bind_pure_unit]
      exact does_nodes hp body
    · exact does_branches hp line false rest hotherwise

end

end

/-! ## Whole renderings -/

theorem does_within (env : Environment) (room d : Nat) (hroom : room = (env.maxDepth - d).toNat)
    (ns : List Node) :
    Does env d [.nodes ns] (renderWithin env (loadPartial env) room ns) := by
  induction room generalizing d ns with
  | zero =>
    have hp : Partials.Agree env d ⟨loadPartial env, none⟩ := ⟨rfl, fun _ => by omega, nofun⟩
    exact does_nodes hp ns
  | succ room ih =>
    have hp : Partials.Agree env d
        ⟨loadPartial env, some (renderWithin env (loadPartial env) room)⟩ := by
      -- One level further in, one more inclusion is open and there is room for one less.
      refine ⟨rfl, nofun, ?_⟩
      rintro enter ⟨⟩
      refine ⟨by omega, samePlace_renderWithin env room, ih (d + 1) ?_⟩
      omega
    exact does_nodes hp ns

/-- A rendering is a run of the machine, and the run ends where the rendering does. -/
theorem leads_nodes (env : Environment) (ns : List Node) (s : Session) :
    Leads env (first ns s) (ended [] (nodes env ns s)) :=
  does_within env (room env s) s.depth rfl ns s [] rfl

end Stencil.Render
