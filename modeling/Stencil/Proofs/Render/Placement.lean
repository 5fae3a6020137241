import Stencil.Proofs.Render.Course
import Stencil.Proofs.Render.History
import Stencil.Proofs.Template.Written

/-!
# Tasks and the templates in which they stand

At every moment of a rendering, the session names the template in which the next task stands. Only
the attributes of an inclusion are evaluated in another template than the one they stand in.
-/

namespace Stencil.Render

open Markup Session Moment

/-! ## Tasks of templates -/

/-- What the task renders stands in the template. -/
def Task.IsOf (env : Environment) (T : Template) : Task → Prop
  | .node n => n.Written env.tags T.tokens
  | .nodes ns => AllWritten env.tags T.tokens ns
  | .branches line _ bs otherwise =>
    BranchesWritten env.tags T.tokens line bs ∧ AllWritten env.tags T.tokens otherwise
  | .loop _ body _ => AllWritten env.tags T.tokens body
  | .items _ _ body _ _ => AllWritten env.tags T.tokens body
  | .changed _ => True
  | .entry line i name p _ => env.load name true = .ok p ∧ ∃ tok ∈ T.tokens,
    (tok.line : Int) = line ∧ tok.Starts env.tags (.node (.inclusion tok.line i))
  | .attributes .. => False
  | .each _ body _ => AllWritten env.tags T.tokens body
  | .leaveFrame => True
  | .leaveCapture _ => True
  | .leavePartial .. => False

section

variable (env : Environment) (t : Template)

/-- The template that is rendered, or one that the loader gives for some name. -/
def Known (T : Template) : Prop := T = t ∨ ∃ name, env.load name true = .ok T

/--
A task that is carried out in the template of this name stands in it; only the attributes of an
inclusion are bound in the included template and stand in the including one.
-/
inductive Task.Belongs : Option String → Task → Prop
  | inside {T : Template} {task : Task} : Known env t T → task.IsOf env T → Belongs T.name task
  | attributes {T p : Template} {tok : Token} {i : Inclusion} {name : String}
    {attributes : List (String × Expr)} : Known env t T → tok ∈ T.tokens →
    tok.Starts env.tags (.node (.inclusion tok.line i)) → env.load name true = .ok p →
    attributes ⊆ i.attributes → Belongs (some name) (.attributes tok.line attributes)

/-- Tasks that begin in the template of this name, and go back to others. -/
inductive Belong : Option String → List Task → Prop
  | done {name : Option String} : Belong name []
  | task {name : Option String} {task : Task} {rest : List Task} : task.Belongs env t name →
    Belong name rest → Belong name (task :: rest)
  | leave {name outer : Option String} {isPartial : Bool} {depth : Nat} {chain : IncludeChain}
    {rest : List Task} : Belong outer rest →
    Belong name (.leavePartial outer isPartial depth chain :: rest)

/-- Every task is carried out where it belongs, and partials are what the loader gives. -/
structure Moment.InPlace (m : Moment) : Prop where
  tasks : Belong env t m.session.template m.tasks
  current : Current env m.session

end

section

variable {env : Environment} {t T : Template} {name : Option String}

theorem Belong.append {more rest : List Task} (hmore : ∀ task ∈ more, task.Belongs env t name)
    (hrest : Belong env t name rest) : Belong env t name (more ++ rest) := by
  induction more with
  | nil => exact hrest
  | cons first more ih =>
    refine .task (hmore first List.mem_cons_self) (ih fun task htask => ?_)
    exact hmore task (List.mem_cons_of_mem _ htask)

theorem allWritten_of_load {name : String} {isPartial : Bool}
    (h : env.load name isPartial = .ok T) : AllWritten env.tags T.tokens T.nodes := by
  obtain ⟨source, -, hparse⟩ := exists_of_bind_eq_ok h
  exact Environment.written_of_parse hparse

/-! ## One task -/

/-- The action stays in its template, and hands over tasks of a kind. -/
def Stays (P : Task → Prop) (s : Session) (action : Render (List Task)) : Prop :=
  match action s with
  | .ok more s' => s'.template = s.template ∧ ∀ task ∈ more, P task
  | .error _ s' => s'.template = s.template

variable {P : Task → Prop} {s : Session} {α : Type}

theorem stays_andThen {x : Render α} {tasks : α → List Task} (hx : Along SamePlace x)
    (htasks : ∀ a s', x s = .ok a s' → ∀ task ∈ tasks a, P task) :
    Stays P s (x >>= fun a => pure (tasks a)) := by
  have hs := (hx s).template
  unfold Stays
  cases h : x s with
  | ok a s' =>
    rw [after_of_ok h] at hs
    rw [bind_of_ok h]
    exact ⟨hs, htasks a s' h⟩
  | error e s' =>
    rw [after_of_error h] at hs
    rwa [bind_of_error h]

theorem stays_pure {tasks : List Task} (htasks : ∀ task ∈ tasks, P task) :
    Stays P s (pure tasks) := ⟨rfl, htasks⟩

theorem stays_once {action : Render (List Task)} {x : Render Unit} {tasks : List Task}
    (haction : action = x >>= fun _ => pure tasks) (hx : Along SamePlace x)
    (htasks : ∀ task ∈ tasks, P task) : Stays P s action := by
  rw [haction]
  exact stays_andThen hx fun _ _ _ => htasks

theorem load_of_needs (hs : Current env s) {line : Int} {i : Inclusion} {name : String}
    {p : Template} {v : Value} {s' : Session}
    (h : needs env line i s = .ok (name, p, v) s') : env.load name true = .ok p := by
  obtain ⟨name', s₁, hname, h⟩ := bind_eq_ok.mp h
  obtain rfl : s = s₁ := after_of_ok hname ▸ still_partialName env line i s
  obtain ⟨p', s₂, hload, h⟩ := bind_eq_ok.mp h
  obtain ⟨v', s₃, -, h⟩ := bind_eq_ok.mp h
  obtain ⟨rfl, rfl⟩ : name' = name ∧ p' = p := by
    cases h
    exact ⟨rfl, rfl⟩
  cases hknown : s.partials.lookup name' with
  | some found =>
    rw [loadPartial_of_known hknown] at hload
    cases hload
    exact hs name' p' hknown
  | none =>
    cases hfound : env.load name' true with
    | ok found =>
      rw [loadPartial_of_found hknown hfound] at hload
      cases hload
      rfl
    | error e =>
      rw [loadPartial_of_failed hknown hfound] at hload
      cases hload

theorem stays_beginNode (hs : Current env s) {n : Node} (h : n.Written env.tags T.tokens) :
    Stays (Task.IsOf env T) s (beginNode env n) := by
  cases h with
  | text => exact stays_once rfl (lasting_samePlace.write _) forall_mem_nil
  | output => exact stays_once (bind_assoc _ _ _).symm (lasting_samePlace.output _ _) forall_mem_nil
  | raw => exact stays_once rfl (lasting_samePlace.write _) forall_mem_nil
  | comment => exact stays_pure forall_mem_nil
  | assign =>
    exact stays_once (bind_assoc _ _ _).symm (lasting_samePlace.assign _ _ _) forall_mem_nil
  | ifChanged hbody =>
    refine ⟨rfl, ?_⟩
    rintro task (_ | ⟨_, htask⟩)
    · exact hbody
    · have hframe : Task.leaveFrame.IsOf env T := trivial
      have hcapture : (Task.leaveCapture s.output).IsOf env T := trivial
      exact forall_mem_pair hframe hcapture task htask
  | conditional hchains hbodies hotherwise =>
    exact stays_pure (forall_mem_singleton ⟨fun b hb => ⟨hchains b hb, hbodies b hb⟩, hotherwise⟩)
  | loop _ _ _ hbody hotherwise =>
    refine stays_andThen (lasting_samePlace.still (still_loopItems env _ _)) fun items _ _ => ?_
    split
    · exact forall_mem_singleton hotherwise
    · exact forall_mem_singleton hbody
  | inclusion ht hstarts =>
    refine stays_andThen (samePlace_needs _ _) fun found _ hfound => ?_
    exact forall_mem_singleton ⟨load_of_needs hs hfound, _, ht, rfl, hstarts⟩
  | inline => exact stays_once (bind_assoc _ _ _).symm (lasting_samePlace.inline _ _) forall_mem_nil

theorem stays_carryOut (hs : Current env s) {task : Task} (h : task.IsOf env T)
    (hentry : ∀ line i name p v, task ≠ .entry line i name p v) :
    Stays (Task.IsOf env T) s (task.carryOut env) := by
  cases task with
  | node n => exact stays_beginNode hs h
  | nodes ns =>
    cases ns with
    | nil => exact stays_pure forall_mem_nil
    | cons n ns =>
      refine stays_pure (forall_mem_pair (h n List.mem_cons_self) fun n hn => ?_)
      exact h n (List.mem_cons_of_mem _ hn)
  | branches line isNegated branches otherwise =>
    obtain ⟨hbranches, hotherwise⟩ := h
    cases branches with
    | nil => exact stays_pure (forall_mem_singleton hotherwise)
    | cons branch rest =>
      refine stays_andThen (lasting_samePlace.still (still_evaluating env _ _)) fun holds _ _ => ?_
      split
      · exact forall_mem_singleton (hbranches branch List.mem_cons_self).2
      · refine forall_mem_singleton ⟨fun b hb => ?_, hotherwise⟩
        exact hbranches b (List.mem_cons_of_mem _ hb)
  | loop name body vs =>
    have hframe : Task.leaveFrame.IsOf env T := trivial
    exact ⟨rfl, forall_mem_pair h hframe⟩
  | items owner name body index0 vs =>
    cases vs with
    | nil => exact stays_pure forall_mem_nil
    | cons v vs =>
      exact stays_andThen (lasting_samePlace.advance _ _ _ _) fun _ _ _ => forall_mem_pair h h
  | changed text => exact stays_once rfl (lasting_samePlace.writeChanged text) forall_mem_nil
  | entry line i name p v => exact absurd rfl (hentry line i name p v)
  | attributes line attributes => cases h
  | each name body vs =>
    cases vs with
    | nil => exact stays_pure forall_mem_nil
    | cons v vs =>
      exact stays_andThen (lasting_samePlace.bind _ _) fun _ _ _ => forall_mem_pair h h
  | leaveFrame => exact ⟨rfl, forall_mem_nil⟩
  | leaveCapture outer =>
    have hchanged : (Task.changed s.output).IsOf env T := trivial
    exact ⟨rfl, forall_mem_singleton hchanged⟩
  | leavePartial template isPartial depth chain => cases h

theorem stays_attributes {line : Int} {key : String} {e : Expr} {rest : List (String × Expr)}
    (h : P (.attributes line rest)) :
    Stays P s (Task.carryOut env (.attributes line ((key, e) :: rest))) := by
  have hstep : Along SamePlace (evaluate env (some line) e >>= fun v => bind key v) :=
    lasting_samePlace.assign _ _ _
  exact stays_once (bind_assoc _ _ _).symm hstep (forall_mem_singleton h)

/-! ## One moment -/

theorem Current.reads {s s' : Session} (hs : Current env s) (h : Reads env s s') :
    Current env s' := by
  intro name p hname
  cases h with
  | nothing h => exact hs name p (h.partials ▸ hname)
  | failed _ _ _ _ _ hpartials => exact hs name p (hpartials ▸ hname)
  | found other found _ hload _ hpartials =>
    rw [hpartials, List.lookup_append] at hname
    cases hknown : s.partials.lookup name with
    | some known =>
      rw [hknown] at hname
      cases hname
      exact hs name p hknown
    | none =>
      rw [hknown, Option.none_or, List.lookup_cons] at hname
      split at hname
      · next heq =>
        cases hname
        rwa [eq_of_beq heq]
      · cases hname

theorem belong_ofResult {action : Render (List Task)} {rest : List Task}
    (h : Stays (Task.Belongs env t s.template) s action) (hrest : Belong env t s.template rest) :
    Belong env t (ofResult rest (action s)).session.template (ofResult rest (action s)).tasks := by
  unfold Stays at h
  cases hresult : action s with
  | ok more s' =>
    rw [hresult] at h
    obtain ⟨htemplate, hmore⟩ := h
    show Belong env t s'.template (more ++ rest)
    rw [htemplate]
    exact .append hmore hrest
  | error e s' =>
    rw [hresult] at h
    show Belong env t s'.template rest
    rwa [h]

theorem Stays.mono {Q : Task → Prop} {action : Render (List Task)} (h : Stays P s action)
    (hPQ : ∀ task, P task → Q task) : Stays Q s action := by
  unfold Stays at h ⊢
  cases hresult : action s with
  | ok more s' =>
    rw [hresult] at h
    exact ⟨h.1, fun task htask => hPQ task (h.2 task htask)⟩
  | error e s' =>
    rw [hresult] at h
    exact h

theorem belong_enterPartial {line : Int} {i : Inclusion} {name : String} {p : Template} {v : Value}
    {rest : List Task} (hknown : Known env t T) (hof : (Task.entry line i name p v).IsOf env T)
    (hrest : Belong env t s.template rest) :
    let m := ofResult rest (enterPartial env line i name p v s)
    Belong env t m.session.template m.tasks := by
  obtain ⟨hload, tok, htok, rfl, hstarts⟩ := hof
  have hpartial : Known env t p := .inr ⟨name, hload⟩
  have hname : p.name = some name := (Environment.load_of_ok hload).1
  have hinside : ∀ task : Task, task.IsOf env p → task.Belongs env t (some name) := by
    intro task htask
    rw [← hname]
    exact .inside hpartial htask
  intro m
  simp only [m, enterPartial]
  split
  · exact hrest
  · have hattributes : (Task.attributes tok.line i.attributes).Belongs env t (some name) :=
      .attributes hknown htok hstarts hload fun _ hmem => hmem
    exact .task hattributes (.task (hinside _ (allWritten_of_load hload))
      (.task (hinside .leaveFrame trivial) (.leave hrest)))

theorem belong_carryOut (hs : Current env s) {task : Task} {rest : List Task}
    (htask : task.Belongs env t s.template) (hrest : Belong env t s.template rest) :
    let m := ofResult rest (task.carryOut env s)
    Belong env t m.session.template m.tasks := by
  generalize hname : s.template = name at htask
  cases htask with
  | @inside T _ hknown hof =>
    by_cases hentry : ∃ line i name p v, task = .entry line i name p v
    · obtain ⟨line, i, name, p, v, rfl⟩ := hentry
      exact belong_enterPartial hknown hof hrest
    · have hother : ∀ line i name p v, task ≠ .entry line i name p v :=
        fun line i name p v h => hentry ⟨line, i, name, p, v, h⟩
      refine belong_ofResult ((stays_carryOut hs hof hother).mono fun task htask => ?_) hrest
      rw [hname]
      exact .inside hknown htask
  | @attributes T p tok i name attributes hknown htok hstarts hload hsub =>
    refine belong_ofResult ?_ hrest
    cases attributes with
    | nil => exact stays_pure forall_mem_nil
    | cons first rest =>
      refine stays_attributes ?_
      rw [hname]
      exact .attributes hknown htok hstarts hload fun _ hmem => hsub (List.mem_cons_of_mem _ hmem)

theorem undo_template {task : Task} (htask : task.Belongs env t name) (s : Session) :
    (task.undo s).template = s.template := by
  cases htask with
  | inside hknown hof => cases task <;> first | rfl | cases hof
  | attributes => rfl

theorem Moment.InPlace.next {m : Moment} (h : m.InPlace env t) : (m.next env).InPlace env t := by
  refine ⟨?_, h.current.reads (reads_next m)⟩
  obtain ⟨tasks, s, error⟩ := m
  have htasks := h.tasks
  cases htasks with
  | done => exact .done
  | @task _ task rest htask hrest =>
    cases error with
    | none => exact belong_carryOut h.current htask hrest
    | some e =>
      show Belong env t (task.undo s).template rest
      rwa [undo_template htask]
  | leave hrest => cases error <;> exact hrest

theorem Moment.InPlace.leads {m m' : Moment} (h : m.InPlace env t) (hm : Leads env m m') :
    m'.InPlace env t := hm.keeps (Moment.InPlace env t) (fun _ => InPlace.next) h

theorem inPlace_start {bindings : Frame} (h : AllWritten env.tags t.tokens t.nodes) :
    (Moment.start env t bindings).InPlace env t :=
  ⟨.task (.inside (.inl rfl) h) .done, nofun⟩

end

end Stencil.Render
