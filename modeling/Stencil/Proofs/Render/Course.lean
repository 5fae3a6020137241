import Stencil.Proofs.Render.Failing
import Stencil.Proofs.Render.Limit

/-!
# The course of a rendering

A rendering goes one way only. It fails exactly when it comes to a task that fails, and with the
error of that task; and where all the tasks it comes to do the same in another environment, it is
the same rendering there.
-/

namespace Stencil.Render

open Session Moment

/-! ## Tasks that stay where they are -/

/-- Does not open or close anything, and reads no partial. -/
def Task.isInside : Task → Bool
  | .node (.ifChanged ..) => false
  | .node (.inclusion ..) => false
  | .loop .. => false
  | .entry .. => false
  | .leaveFrame => false
  | .leaveCapture _ => false
  | .leavePartial .. => false
  | _ => true

namespace Lasting

variable {R : Session → Session → Prop} {env : Environment} {α : Type}

theorem andReturn (h : Lasting R) {x : Render α} {tasks : α → List Task} (hx : Along R x) :
    Along R (x >>= fun a => pure (tasks a)) := h.andThen hx fun _ => h.still (still_pure _)

theorem once (h : Lasting R) {action : Render (List Task)} {x : Render Unit} {tasks : List Task}
    (haction : action = x >>= fun _ => pure tasks) (hx : Along R x) : Along R action := by
  rw [haction]
  exact h.andReturn hx

theorem beginNode (h : Lasting R) {node : Node} (hnode : (Task.node node).isInside) :
    Along R (Render.beginNode env node) := by
  cases node with
  | text line value => exact h.andReturn (h.write _)
  | output line markup e => exact h.once (bind_assoc _ _ _).symm (h.output _ _)
  | raw line name body => exact h.andReturn (h.write _)
  | comment line name body => exact h.still (still_pure _)
  | assign line assignment => exact h.once (bind_assoc _ _ _).symm (h.assign _ _ _)
  | conditional line isNegated branches otherwise => exact h.still (still_pure _)
  | loop line head body otherwise => exact h.andReturn (h.still (still_loopItems env _ _))
  | inline line tag markup => exact h.once (bind_assoc _ _ _).symm (h.inline _ _)
  | ifChanged line body => cases hnode
  | inclusion line i => cases hnode

theorem carryOut (h : Lasting R) {task : Task} (htask : task.isInside) :
    Along R (task.carryOut env) := by
  cases task with
  | node node => exact h.beginNode htask
  | nodes ns => cases ns <;> exact h.still (still_pure _)
  | branches line isNegated branches otherwise =>
    cases branches with
    | nil => exact h.still (still_pure _)
    | cons branch rest => exact h.andReturn (h.still (still_evaluating env _ _))
  | items owner name body index0 vs =>
    cases vs with
    | nil => exact h.still (still_pure _)
    | cons v vs => exact h.andReturn (h.advance _ _ _ _)
  | changed text => exact h.andReturn (h.writeChanged text)
  | attributes line attributes =>
    cases attributes with
    | nil => exact h.still (still_pure _)
    | cons first rest => exact h.once (bind_assoc _ _ _).symm (h.assign (some line) _ _)
  | each name body vs =>
    cases vs with
    | nil => exact h.still (still_pure _)
    | cons v vs => exact h.andReturn (h.bind _ _)
  | _ => cases htask

end Lasting

/-! ## Moments at which a task fails -/

/-- At this moment the next task fails. -/
def Moment.Fails (env : Environment) (m : Moment) (error : Error) : Prop :=
  ∃ task rest s, m = ⟨task :: rest, s, none⟩ ∧ task.Fails env s error

namespace Moment

/-! ## One way only -/

section

variable {env env' : Environment} {m m' m'' : Moment} {error : Error}

theorem Leads.total (h : Leads env m m') (h' : Leads env m m'') :
    Leads env m' m'' ∨ Leads env m'' m' := by
  obtain ⟨i, rfl⟩ := h
  obtain ⟨j, rfl⟩ := h'
  rcases Nat.le_total i j with hle | hle
  · refine .inl ⟨j - i, ?_⟩
    rw [← Function.iterate_add_apply, Nat.sub_add_cancel hle]
  · refine .inr ⟨i - j, ?_⟩
    rw [← Function.iterate_add_apply, Nat.sub_add_cancel hle]

/-- What one step keeps, the whole course keeps. -/
theorem Leads.keeps (h : Leads env m m') (P : Moment → Prop)
    (hstep : ∀ m, P m → P (m.next env)) (hm : P m) : P m' := by
  obtain ⟨n, rfl⟩ := h
  induction n with
  | zero => exact hm
  | succ n ih =>
    rw [Function.iterate_succ_apply']
    exact hstep _ ih

theorem next_of_isLast (h : m.isLast) : m.next env = m := by
  obtain ⟨tasks, s, error⟩ := m
  cases tasks with
  | nil => rfl
  | cons task rest => cases h

theorem eq_of_isLast (hlast : m.isLast) (h : Leads env m m') : m' = m := by
  refine h.keeps (fun m' => m' = m) ?_ rfl
  rintro _ rfl
  exact next_of_isLast hlast

theorem last_unique (h : Leads env m m') (h' : Leads env m m'') (hlast : m'.isLast)
    (hlast' : m''.isLast) : m' = m'' := by
  rcases h.total h' with h | h
  · exact (eq_of_isLast hlast h).symm
  · exact eq_of_isLast hlast' h

/-! ## Errors on their way out -/

theorem error_next (h : m.error = some error) : (m.next env).error = some error := by
  obtain ⟨tasks, s, _⟩ := m
  cases h
  cases tasks <;> rfl

theorem next_of_fails (h : m.Fails env error) : (m.next env).error = some error := by
  obtain ⟨task, rest, s, rfl, hfails⟩ := h
  obtain ⟨s', hcarry⟩ := raises_carryOut_iff.mpr hfails
  show (ofResult rest (task.carryOut env s)).error = some error
  rw [hcarry]
  rfl

theorem fails_of_next (h : m.error = none) (hnext : (m.next env).error = some error) :
    m.Fails env error := by
  obtain ⟨tasks, s, _⟩ := m
  cases h
  cases tasks with
  | nil => cases hnext
  | cons task rest =>
    change (ofResult rest (task.carryOut env s)).error = some error at hnext
    cases hcarry : task.carryOut env s with
    | ok more s' =>
      rw [hcarry] at hnext
      cases hnext
    | error e s' =>
      rw [hcarry] at hnext
      cases hnext
      exact ⟨task, rest, s, rfl, raises_carryOut_iff.mp ⟨s', hcarry⟩⟩

theorem exists_fails_of_error (hm : m.error = none) (h : Leads env m m')
    (herror : m'.error = some error) : ∃ m'', Leads env m m'' ∧ m''.Fails env error := by
  obtain ⟨n, rfl⟩ := h
  induction n with
  | zero =>
    rw [Function.iterate_zero, id_eq, hm] at herror
    cases herror
  | succ n ih =>
    rw [Function.iterate_succ_apply'] at herror
    -- Either the error was there a moment before, or the last step is the one that fails.
    cases hearlier : ((next env)^[n] m).error with
    | none => exact ⟨_, ⟨n, rfl⟩, fails_of_next hearlier herror⟩
    | some e =>
      rw [error_next hearlier] at herror
      exact ih (hearlier.trans herror)

theorem last_error_iff (hm : m.error = none) (h : Leads env m m') (hlast : m'.isLast) :
    m'.error = some error ↔ ∃ m'', Leads env m m'' ∧ m''.Fails env error := by
  constructor
  · exact exists_fails_of_error hm h
  · rintro ⟨m'', hm'', hfails⟩
    have herror := next_of_fails hfails
    have hnext : Leads env m (m''.next env) := hm''.trans ⟨1, rfl⟩
    -- Whichever comes first of the last moment and the one after the failure, both have the error.
    rcases h.total hnext with hafter | hbefore
    · rwa [eq_of_isLast hlast hafter] at herror
    · exact hbefore.keeps (fun m => m.error = some error) (fun _ => error_next) herror

theorem Leads.congr (hsame : ∀ m', Leads env m m' → m'.next env = m'.next env')
    (h : Leads env m m') : Leads env' m m' := by
  obtain ⟨n, rfl⟩ := h
  induction n with
  | zero => exact .refl
  | succ n ih =>
    rw [Function.iterate_succ_apply', hsame _ ⟨n, rfl⟩]
    exact ih.trans ⟨1, rfl⟩

end

end Moment

/-! ## Whole renderings -/

section

variable {env env' : Environment} {ns : List Node} {s : Session} {error : Error}

theorem isLast_ended (r : EStateM.Result Error Session Unit) : (ended [] r).isLast := by
  cases r <;> rfl

theorem ended_injective {r r' : EStateM.Result Error Session Unit} (h : ended [] r = ended [] r') :
    r = r' := by
  cases r <;> cases r' <;> cases h <;> rfl

theorem error_ended {action : Render Unit} :
    (ended [] (action s)).error = some error ↔ Raises action s error := by
  unfold Raises
  cases action s with
  | ok a s' => simp [ended]
  | error e s' => simp [ended]

/-- A rendering fails with what a task fails with that it comes to. -/
theorem raises_nodes_iff :
    Raises (nodes env ns) s error ↔ ∃ m, Leads env (first ns s) m ∧ m.Fails env error :=
  error_ended.symm.trans (last_error_iff rfl (leads_nodes env ns s) (isLast_ended _))

theorem render_eq_error_iff {t : Template} {bindings : Frame} :
    t.render env bindings = .error error ↔
      ∃ m, Leads env (Moment.start env t bindings) m ∧ m.Fails env error := by
  refine Iff.trans ?_ raises_nodes_iff
  unfold Template.render Raises
  cases nodes env t.nodes (Session.start env bindings t.name) with
  | ok a s' => simp
  | error e s' => simp

theorem nodes_congr (hsame : ∀ m, Leads env (first ns s) m → m.next env = m.next env') :
    nodes env ns s = nodes env' ns s := by
  have h : Leads env' (first ns s) (ended [] (nodes env ns s)) :=
    (leads_nodes env ns s).congr hsame
  have h' : Leads env' (first ns s) (ended [] (nodes env' ns s)) := leads_nodes env' ns s
  exact ended_injective (last_unique h h' (isLast_ended _) (isLast_ended _))

end

end Stencil.Render
