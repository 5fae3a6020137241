import Stencil.Proofs.Render.Course

/-!
# Turns

A tag that renders a body for many values takes turns: it sets the session up for a value, renders
the body, and goes on with the next value. The machine passes a moment at which the body begins once
for each turn, and at no other time.
-/

namespace Stencil.Render

open Session

/-! ## Moments on the way -/

namespace Moment

/--
The way from one moment to another, with the sessions of those moments on it for which `P` holds.
The other moment itself does not count.
-/
inductive Passes (env : Environment) (P : Moment → Prop) : Moment → List Session → Moment → Prop
  | here (m : Moment) : Passes env P m [] m
  | other {m m' : Moment} {log : List Session} : ¬ P m → Passes env P (m.next env) log m' →
    Passes env P m log m'
  | counts {m m' : Moment} {log : List Session} : P m → Passes env P (m.next env) log m' →
    Passes env P m (m.session :: log) m'

section

variable {env : Environment} {P : Moment → Prop} {m m' m'' : Moment} {log log' : List Session}

theorem Passes.trans (h : Passes env P m log m') (h' : Passes env P m' log' m'') :
    Passes env P m (log ++ log') m'' := by
  induction h with
  | here => exact h'
  | other hm _ ih => exact .other hm (ih h')
  | counts hm _ ih => exact .counts hm (ih h')

theorem Passes.leads (h : Passes env P m log m') : Leads env m m' := by
  induction h with
  | here => exact .refl
  | other _ _ ih => exact .step ih
  | counts _ _ ih => exact .step ih

end

/-- The same moment in a rendering that has something else to do afterwards. -/
def above (m : Moment) (base : List Task) : Moment := { m with tasks := m.tasks ++ base }

theorem next_above {m : Moment} (env : Environment) (base : List Task) (h : m.tasks ≠ []) :
    (m.above base).next env = (m.next env).above base := by
  obtain ⟨tasks, s, error⟩ := m
  obtain ⟨task, rest, rfl⟩ := List.exists_cons_of_ne_nil h
  cases error with
  | some e => rfl
  | none =>
    show ofResult (rest ++ base) (task.carryOut env s) =
      (ofResult rest (task.carryOut env s)).above base
    cases task.carryOut env s with
    | ok more s' => simp [ofResult, above]
    | error e s' => rfl

end Moment

open Moment

/-! ## Moments at which a body begins -/

/-- A body begins that is rendered in turns, before the tasks `rest`. -/
def Begins (body : List Node) (rest : List Task) (m : Moment) : Prop :=
  m.error = none ∧ ∃ again, m.tasks = .nodes body :: again :: rest

/-- Of the body, fewer nodes are left to be rendered. -/
def Inside (body : List Node) (m : Moment) : Prop :=
  m.tasks = [] ∨ ∃ inner ns, m.tasks = inner ++ [.nodes ns] ∧ ns.length < body.length

section

variable {env : Environment} {body : List Node} {rest base : List Task} {m m' : Moment}

theorem not_begins_of_length (h : m.tasks.length ≠ rest.length + 2) : ¬ Begins body rest m := by
  rintro ⟨-, again, htasks⟩
  rw [htasks] at h
  exact h rfl

theorem not_begins_of_task {task : Task} {tasks : List Task} {s : Session} {error : Option Error}
    (h : ∀ ns, task ≠ .nodes ns) : ¬ Begins body rest ⟨task :: tasks, s, error⟩ := by
  rintro ⟨-, again, htasks⟩
  cases htasks
  exact h body rfl

theorem not_begins_of_error {tasks : List Task} {s : Session} {e : Error} :
    ¬ Begins body rest ⟨tasks, s, some e⟩ := nofun

theorem inside_next (h : Inside body m) : Inside body (m.next env) := by
  obtain ⟨tasks, s, error⟩ := m
  obtain hnone | ⟨inner, ns, htasks, hshort⟩ := h
  · obtain rfl : tasks = [] := hnone
    exact .inl rfl
  · obtain rfl : tasks = inner ++ [.nodes ns] := htasks
    cases inner with
    | cons task inner =>
      -- Whatever the first task does, the rest of the body stays at the end.
      cases error with
      | some e => exact .inr ⟨inner, ns, rfl, hshort⟩
      | none =>
        show Inside body (ofResult (inner ++ [.nodes ns]) (task.carryOut env s))
        cases task.carryOut env s with
        | ok more s' => exact .inr ⟨more ++ inner, ns, (List.append_assoc _ _ _).symm, hshort⟩
        | error e s' => exact .inr ⟨inner, ns, rfl, hshort⟩
    | nil =>
      cases error with
      | some e => exact .inl rfl
      | none =>
        cases ns with
        | nil => exact .inl rfl
        | cons n ns => exact .inr ⟨[.node n], ns, rfl, Nat.lt_of_succ_lt hshort⟩

theorem Inside.not_begins {again : Task} (h : Inside body m) :
    ¬ Begins body rest (m.above (again :: rest)) := by
  rintro ⟨-, again', htasks⟩
  obtain hnone | ⟨inner, ns, hm, hshort⟩ := h
  · have hlength := congrArg List.length htasks
    simp [above, hnone] at hlength
  · simp only [above, hm, List.append_assoc, List.singleton_append] at htasks
    have hlength := congrArg List.length htasks
    simp only [List.length_append, List.length_cons] at hlength
    obtain rfl : inner = [] := List.length_eq_zero_iff.mp (by omega)
    cases htasks
    exact Nat.lt_irrefl _ hshort

theorem Inside.passes {P : Moment → Prop} (hP : ∀ m, Inside body m → ¬ P (m.above base))
    (hm : Inside body m) (h : Leads env m m') (hlast : m'.isLast) :
    Passes env P (m.above base) [] (m'.above base) := by
  obtain ⟨n, rfl⟩ := h
  induction n generalizing m with
  | zero => exact .here _
  | succ n ih =>
    by_cases htasks : m.tasks = []
    · have hstays : m.next env = m := next_of_isLast (by simp [isLast, htasks])
      rw [Function.iterate_succ_apply, hstays] at hlast ⊢
      exact ih hm hlast
    · refine .other (hP m hm) ?_
      rw [next_above env _ htasks]
      exact ih (inside_next hm) hlast

theorem passes_inside (again : Task) (rest : List Task) (h : Leads env m m') (hlast : m'.isLast)
    (hm : Inside body m) :
    Passes env (Begins body rest) (m.above (again :: rest)) [] (m'.above (again :: rest)) :=
  hm.passes (fun _ => Inside.not_begins) h hlast

theorem above_ended (r : EStateM.Result Error Session Unit) :
    (ended [] r).above base = ended base r := by
  cases r <;> rfl

/-- A body is rendered from beginning to end in one turn. -/
theorem passes_body (env : Environment) (body : List Node) (again : Task) (rest : List Task)
    (s : Session) :
    Passes env (Begins body rest) ⟨.nodes body :: again :: rest, s, none⟩ [s]
      (ended (again :: rest) (nodes env body s)) := by
  have hbegins : Begins body rest ⟨.nodes body :: again :: rest, s, none⟩ := ⟨rfl, again, rfl⟩
  refine .counts hbegins ?_
  have hfirst : Inside body ((first body s).next env) := by
    cases body with
    | nil => exact .inl rfl
    | cons n ns => exact .inr ⟨[.node n], ns, rfl, Nat.lt_succ_self _⟩
  have hleads : Leads env ((first body s).next env) (ended [] (nodes env body s)) := by
    obtain ⟨n, hn⟩ := leads_nodes env body s
    cases n with
    | zero => cases hresult : nodes env body s <;> rw [hresult] at hn <;> cases hn
    | succ n => exact ⟨n, hn⟩
  have hinside := passes_inside again rest hleads (isLast_ended _) hfirst
  rw [above_ended] at hinside
  rwa [← next_above env (again :: rest) (List.cons_ne_nil _ _)] at hinside

end

theorem nodes_of_leads {env : Environment} {node : Node} {s : Session}
    {r : EStateM.Result Error Session Unit}
    (h : ∀ rest, Leads env ⟨.node node :: rest, s, none⟩ (ended rest r)) :
    nodes env [node] s = r := by
  have hend : Leads env (ended [.nodes []] r) (ended [] r) := by
    cases r with
    | ok a s' => exact .task .refl
    | error e s' => exact .undo .refl
  have hrun : Leads env (first [node] s) (ended [] r) := .task ((h [.nodes []]).trans hend)
  have hnodes := leads_nodes env [node] s
  exact ended_injective (last_unique hnodes hrun (isLast_ended _) (isLast_ended _))

/-- The result of an action, with something done to the session in the end. -/
def closed (restore : Session → Session) :
    EStateM.Result Error Session Unit → EStateM.Result Error Session Unit
  | .ok a s => .ok a (restore s)
  | .error e s => .error e (restore s)

theorem closed_eq_error_iff {restore : Session → Session}
    {r : EStateM.Result Error Session Unit} {e : Error} :
    (∃ s, closed restore r = .error e s) ↔ ∃ s, r = .error e s := by
  cases r <;> simp [closed]

/-! ## Turns -/

/--
The turns of a body, for values the first of which has the place `k`: each starts in the session
that is prepared for its value, and after one that fails there is no other.
-/
inductive Turns (env : Environment) (body : List Node) (prepare : Nat → Value → Session → Session) :
    Nat → List Value → Session → List Session → EStateM.Result Error Session Unit → Prop
  | done (k : Nat) (s : Session) : Turns env body prepare k [] s [] (.ok () s)
  | fails {k : Nat} {v : Value} {vs : List Value} {s s' : Session} {e : Error} :
    nodes env body (prepare k v s) = .error e s' →
    Turns env body prepare k (v :: vs) s [prepare k v s] (.error e s')
  | goesOn {k : Nat} {v : Value} {vs : List Value} {s s' : Session} {starts : List Session}
    {r : EStateM.Result Error Session Unit} : nodes env body (prepare k v s) = .ok () s' →
    Turns env body prepare (k + 1) vs s' starts r →
    Turns env body prepare k (v :: vs) s (prepare k v s :: starts) r

/-- A task that prepares a session for the next value and hands over the body. -/
structure Repeats (env : Environment) (body : List Node) (again : Nat → List Value → Task)
    (prepare : Nat → Value → Session → Session) : Prop where
  isPlain : ∀ k vs, (again k vs).isPlain
  stop : ∀ k s, (again k []).carryOut env s = .ok [] s
  turn : ∀ k v vs s,
    (again k (v :: vs)).carryOut env s = .ok [.nodes body, again (k + 1) vs] (prepare k v s)

section

variable {env : Environment} {body : List Node} {prepare : Nat → Value → Session → Session}
  {again : Nat → List Value → Task}

theorem repeats_items (owner : LoopOwner) (name : String) :
    Repeats env body (.items owner name body)
      fun k v s => { s with scope := (s.scope.advance owner k).bind name v } where
  isPlain _ _ := rfl
  stop _ _ := rfl
  turn _ _ _ _ := rfl

theorem repeats_each (name : String) :
    Repeats env body (fun _ => .each name body)
      fun _ v s => { s with scope := s.scope.bind name v } where
  isPlain _ _ := rfl
  stop _ _ := rfl
  turn _ _ _ _ := rfl

theorem exists_turns (env : Environment) (body : List Node)
    (prepare : Nat → Value → Session → Session) (k : Nat) (vs : List Value) (s : Session) :
    ∃ starts r, Turns env body prepare k vs s starts r := by
  induction vs generalizing k s with
  | nil => exact ⟨[], .ok () s, .done k s⟩
  | cons v vs ih =>
    cases hbody : nodes env body (prepare k v s) with
    | ok a s' =>
      obtain ⟨starts, r, hturns⟩ := ih (k + 1) s'
      exact ⟨_, r, .goesOn hbody hturns⟩
    | error e s' => exact ⟨_, _, .fails hbody⟩

theorem Repeats.passes (h : Repeats env body again prepare) {k : Nat} {vs : List Value}
    {s : Session} {starts : List Session} {r : EStateM.Result Error Session Unit}
    (hturns : Turns env body prepare k vs s starts r) (rest : List Task) :
    Passes env (Begins body rest) ⟨again k vs :: rest, s, none⟩ starts (ended rest r) := by
  have halone : ∀ k vs s, ¬ Begins body rest ⟨again k vs :: rest, s, none⟩ :=
    fun k vs s => not_begins_of_length (by simp)
  have hnext : ∀ k v vs s, next env ⟨again k (v :: vs) :: rest, s, none⟩ =
      ⟨.nodes body :: again (k + 1) vs :: rest, prepare k v s, none⟩ :=
    fun k v vs s => congrArg (ofResult rest) (h.turn k v vs s)
  induction hturns with
  | done k s =>
    have hstop : next env ⟨again k [] :: rest, s, none⟩ = ⟨rest, s, none⟩ :=
      congrArg (ofResult rest) (h.stop k s)
    exact .other (halone k [] s) (hstop ▸ .here _)
  | @fails k v vs s s' e hfails =>
    have hbody := passes_body env body (again (k + 1) vs) rest (prepare k v s)
    have hundo : next env ⟨again (k + 1) vs :: rest, s', some e⟩ = ⟨rest, s', some e⟩ :=
      congrArg (Moment.mk rest · (some e)) (Task.undo_of_isPlain (h.isPlain _ _) s')
    have hout : Passes env (Begins body rest) ⟨again (k + 1) vs :: rest, s', some e⟩ []
        ⟨rest, s', some e⟩ := .other not_begins_of_error (hundo ▸ .here _)
    rw [hfails] at hbody
    refine .other (halone k _ s) ?_
    rw [hnext]
    exact hbody.trans hout
  | @goesOn k v vs s s' starts r hok _ ih =>
    have hbody := passes_body env body (again (k + 1) vs) rest (prepare k v s)
    rw [hok] at hbody
    refine .other (halone k _ s) ?_
    rw [hnext]
    exact hbody.trans ih

end

/-! ## The places of turns -/

/--
The body is rendered for one value after the other, in these sessions: once for each value, or as
far as to one for which it fails.
-/
structure EachOnce (env : Environment) (body : List Node) (vs : List Value)
    (starts : List Session) : Prop where
  length_le : starts.length ≤ vs.length
  complete : starts.length = vs.length ∨
    ∃ last e, starts.getLast? = some last ∧ Raises (nodes env body) last e

theorem EachOnce.length_eq {env : Environment} {body ns : List Node} {vs : List Value}
    {starts : List Session} {s : Session} (h : EachOnce env body vs starts)
    (hraises : ∀ e, Raises (nodes env ns) s e ↔
      ∃ last, starts.getLast? = some last ∧ Raises (nodes env body) last e)
    (hok : ∀ e, ¬ Raises (nodes env ns) s e) : starts.length = vs.length := by
  obtain hlength | ⟨last, e, hlast⟩ := h.complete
  · exact hlength
  · exact absurd ((hraises e).mpr ⟨last, hlast⟩) (hok e)

theorem not_raises_of_render {env : Environment} {t : Template} {bindings : Frame} {text : String}
    (h : (t.render env bindings).toOption = some text) (e : Error) :
    ¬ Raises (nodes env t.nodes) (Session.start env bindings t.name) e := by
  intro hraises
  rw [render_eq_error_iff.mpr (raises_nodes_iff.mp hraises)] at h
  cases h

namespace Turns

variable {env : Environment} {body : List Node} {prepare : Nat → Value → Session → Session}
  {k : Nat} {vs : List Value} {s : Session} {starts : List Session}
  {r : EStateM.Result Error Session Unit}

theorem length_le (h : Turns env body prepare k vs s starts r) : starts.length ≤ vs.length := by
  induction h with
  | done => simp
  | fails => simp
  | goesOn _ _ ih => simpa using ih

theorem first (h : Turns env body prepare k vs s starts r) {start : Session}
    (hstart : starts[0]? = some start) : ∃ v, vs[0]? = some v ∧ start = prepare k v s := by
  cases h with
  | done => cases hstart
  | fails | goesOn =>
    cases hstart
    exact ⟨_, rfl, rfl⟩

theorem later (h : Turns env body prepare k vs s starts r) {j : Nat} {start start' : Session}
    (hstart : starts[j]? = some start) (hstart' : starts[j + 1]? = some start') :
    ∃ v s', vs[j + 1]? = some v ∧ nodes env body start = .ok () s' ∧
      start' = prepare (k + (j + 1)) v s' := by
  induction h generalizing j with
  | done => cases hstart
  | fails => simp at hstart'
  | @goesOn k v vs s s' starts r hbody hturns ih =>
    cases j with
    | zero =>
      cases hstart
      obtain ⟨w, hw, rfl⟩ := hturns.first hstart'
      exact ⟨w, s', hw, hbody, rfl⟩
    | succ j =>
      obtain ⟨w, s₁, hw, hbody₁, rfl⟩ := ih hstart hstart'
      refine ⟨w, s₁, hw, hbody₁, ?_⟩
      rw [Nat.add_right_comm]
      rfl

theorem prepared (h : Turns env body prepare k vs s starts r) {j : Nat} {start : Session}
    (hstart : starts[j]? = some start) :
    ∃ v s', vs[j]? = some v ∧ start = prepare (k + j) v s' := by
  induction h generalizing j with
  | done => cases hstart
  | fails =>
    cases j with
    | zero =>
      cases hstart
      exact ⟨_, _, rfl, rfl⟩
    | succ j => simp at hstart
  | @goesOn k v vs s s' starts r hbody hturns ih =>
    cases j with
    | zero =>
      cases hstart
      exact ⟨_, _, rfl, rfl⟩
    | succ j =>
      obtain ⟨w, s₁, hw, rfl⟩ := ih hstart
      refine ⟨w, s₁, hw, ?_⟩
      rw [Nat.add_right_comm]
      rfl

theorem keeps {R : Session → Session → Prop} (hR : Lasting R)
    (hprepare : ∀ k v s, R s (prepare k v s)) (hbody : Along R (nodes env body))
    (h : Turns env body prepare k vs s starts r) : ∀ start ∈ starts, R s start := by
  induction h with
  | done => nofun
  | fails => simpa using hprepare _ _ _
  | @goesOn k v vs s s' starts r hok _ ih =>
    have hturn : R s s' := hR.trans (hprepare k v s) (after_of_ok hok ▸ hbody _)
    refine List.forall_mem_cons.mpr ⟨hprepare k v s, ?_⟩
    intro start hstart
    exact hR.trans hturn (ih start hstart)

theorem raises_iff (h : Turns env body prepare k vs s starts r) {e : Error} :
    (∃ s', r = .error e s') ↔
      ∃ last, starts.getLast? = some last ∧ Raises (nodes env body) last e := by
  induction h with
  | done => simp
  | @fails k v vs s s' e' hbody => simp [Raises, hbody]
  | @goesOn k v vs s s' starts r hbody hturns ih =>
    cases hturns with
    | done => simp [Raises, hbody]
    | fails | goesOn => simpa using ih

/-- A node that takes these turns fails as the last of them does. -/
theorem of_passes (h : Turns env body prepare k vs s starts r) {node : Node} {s₁ : Session}
    {restore : Session → Session} {P : List Task → Moment → Prop}
    (hpasses : ∀ rest, Passes env (P rest) ⟨.node node :: rest, s₁, none⟩ starts
      (ended rest (closed restore r))) (rest : List Task) :
    Passes env (P rest) ⟨.node node :: rest, s₁, none⟩ starts (ended rest (nodes env [node] s₁)) ∧
    ∀ e, Raises (nodes env [node]) s₁ e ↔
      ∃ last, starts.getLast? = some last ∧ Raises (nodes env body) last e := by
  have hnode : nodes env [node] s₁ = closed restore r :=
    nodes_of_leads fun rest => (hpasses rest).leads
  refine ⟨hnode ▸ hpasses rest, fun e => ?_⟩
  rw [← h.raises_iff]
  unfold Raises
  rw [hnode, closed_eq_error_iff]

theorem eachOnce (h : Turns env body prepare k vs s starts r) : EachOnce env body vs starts := by
  refine ⟨h.length_le, ?_⟩
  induction h with
  | done => exact .inl rfl
  | @fails k v vs s s' e hbody => exact .inr ⟨_, e, rfl, s', hbody⟩
  | goesOn _ _ ih =>
    obtain hlength | ⟨last, e, hlast, hraises⟩ := ih
    · exact .inl (congrArg Nat.succ hlength)
    · refine .inr ⟨last, e, ?_, hraises⟩
      rw [List.getLast?_cons, hlast]
      rfl

end Turns

end Stencil.Render
