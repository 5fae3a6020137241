import Stencil.Proofs.Render.Course

/-!
# Strict rendering

Where every variable must be bound, a rendering goes as it does where none must be, up to the first
variable that is not.
-/

namespace Stencil

def Setting.withStrict (s : Setting) (strict : Bool) : Setting := { s with strict }

def Environment.withStrict (env : Environment) (strict : Bool) : Environment := { env with strict }

/-! ## Expressions -/

/-- Every lookup that an expression comes to finds something. -/
def Expr.FindsAll (s : Setting) (e : Expr) : Prop := ∀ e', e.Visits s e' → ¬ e'.FindsNothing s

namespace Expr

variable {s : Setting} {markup : String} {strict : Bool}

theorem eval_lookup_of_found {root : Key} {path : List Key} {v found : Value}
    (hroot : evalRoot s root = .ok v) (hpath : evalPath s markup v path = .ok found)
    (hfound : found ≠ .missing) : eval s (.lookup root path markup) = .ok found := by
  rw [eval_lookup hroot, hpath]
  cases found with
  | missing => exact absurd rfl hfound
  | _ => rfl

theorem evalPath_withStrict {path : List Key} {v : Value}
    (hkeys : ∀ v' key rest, Walks s markup v path v' (key :: rest) → v' ≠ .missing →
      evalKey (s.withStrict strict) key = evalKey s key) :
    evalPath (s.withStrict strict) markup v path = evalPath s markup v path := by
  induction path generalizing v with
  | nil => cases v <;> rfl
  | cons key path ih =>
    by_cases hv : v = .missing
    · rw [hv, evalPath_missing, evalPath_missing]
    rw [evalPath_cons hv, evalPath_cons hv, hkeys v key path (.here v _) hv]
    cases hkey : evalKey s key with
    | error e => rfl
    | ok k =>
      rw [except_bind_of_ok rfl, except_bind_of_ok rfl]
      show (s.read markup v k >>= _) = _
      cases hread : s.read markup v k with
      | error e => rfl
      | ok next =>
        rw [except_bind_of_ok rfl, except_bind_of_ok rfl]
        -- A key further on is one that the whole path comes to, since all before it can be read.
        refine ih fun v' key' rest hwalks hv' => ?_
        exact hkeys v' key' rest (.read hv hkey hread hwalks) hv'

/-- Only a lookup that finds nothing makes a difference. -/
theorem eval_withStrict (e : Expr) (h : e.FindsAll s) :
    e.eval (s.withStrict strict) = e.eval s := by
  match e, h with
  | .literal v, h => rfl
  | .range start stop, h =>
    have hstart : start.eval (s.withStrict strict) = start.eval s :=
      eval_withStrict start fun e' hvisits => h e' (.start hvisits)
    rw [eval, eval, hstart]
    cases hlow : start.eval s with
    | error e => rfl
    | ok low =>
      have hstop : stop.eval (s.withStrict strict) = stop.eval s :=
        eval_withStrict stop fun e' hvisits => h e' (.stop hlow hvisits)
      rw [hstop]
      rfl
  | .lookup root path markup, h =>
    have hroot : evalRoot (s.withStrict strict) root = evalRoot s root := by
      cases hkey : root with
      | name name => rfl
      | computed e =>
        have hsmaller : sizeOf e < sizeOf root := by simp [hkey]
        have he : e.eval (s.withStrict strict) = e.eval s :=
          eval_withStrict e fun e' hvisits => h e' (hkey ▸ .root hvisits)
        rw [evalRoot, evalRoot, he]
        rfl
    cases hv : evalRoot s root with
    | error e =>
      rw [eval, eval, hroot, hv]
      rfl
    | ok v =>
      have hpath : evalPath (s.withStrict strict) markup v path = evalPath s markup v path := by
        refine evalPath_withStrict fun v' key rest hwalks hv' => ?_
        cases hkey : key with
        | name name => rfl
        | computed e =>
          subst hkey
          have hsmaller : sizeOf e < sizeOf path :=
            sizeOf_lt_of_mem (mem_of_walks hwalks List.mem_cons_self)
          exact eval_withStrict e fun e' hvisits => h e' (.key hv hwalks hv' hvisits)
      cases hfound : evalPath s markup v path with
      | error e =>
        rw [eval_lookup hv, eval_lookup (hroot.trans hv), hpath, hfound]
      | ok found =>
        -- The two settings part here, and only for a lookup that finds nothing.
        have hsome : found ≠ .missing := by
          rintro rfl
          exact h _ (.self _) ⟨v, hv, hfound⟩
        rw [eval_lookup_of_found hv hfound hsome,
          eval_lookup_of_found (hroot.trans hv) (hpath.trans hfound) hsome]
termination_by sizeOf e
decreasing_by
  all_goals simp_wf
  all_goals omega

end Expr

/-! ## Conditions -/

def Condition.FindsAll (s : Setting) (c : Condition) : Prop := ∀ e, c.Evaluates s e → e.FindsAll s

section

variable {s : Setting} {strict : Bool}

theorem Condition.eval_withStrict (c : Condition) (h : c.FindsAll s) :
    c.eval (s.withStrict strict) = c.eval s := by
  obtain ⟨left, test⟩ := c
  have hleft : left.eval (s.withStrict strict) = left.eval s :=
    left.eval_withStrict (h left .left)
  cases test with
  | none => rw [eval_plain, eval_plain, hleft]
  | some test =>
    obtain ⟨op, e⟩ := test
    rw [eval_test, eval_test, hleft]
    cases hv : left.eval s with
    | error error => rfl
    | ok v =>
      rw [e.eval_withStrict (h e (.right rfl hv))]
      rfl

theorem evalChain_withStrict (rest : List (Connector × Condition)) (first : Condition)
    (h : ∀ before condition later, first :: rest.map (·.2) = before ++ condition :: later →
      (∀ d ∈ later, ∃ holds, d.eval s = .ok holds) → condition.FindsAll s) :
    evalChain (s.withStrict strict) first rest = evalChain s first rest := by
  induction rest generalizing first with
  | nil => exact first.eval_withStrict (h [] first [] rfl nofun)
  | cons second rest ih =>
    obtain ⟨connector, next⟩ := second
    have hrest : evalChain (s.withStrict strict) next rest = evalChain s next rest := by
      refine ih next fun before condition later hsplit hlater => ?_
      refine h (first :: before) condition later ?_ hlater
      rw [List.cons_append, ← hsplit]
      rfl
    rw [evalChain_cons, evalChain_cons, hrest]
    cases hlater : evalChain s next rest with
    | error e => rfl
    | ok holds => rw [first.eval_withStrict (h [] first _ rfl (ok_of_evalChain hlater))]

theorem Chain.eval_withStrict (c : Chain)
    (h : ∀ condition, c.Reaches s condition → condition.FindsAll s) :
    c.eval (s.withStrict strict) = c.eval s := by
  refine evalChain_withStrict c.rest c.first fun before condition later hsplit hlater => ?_
  exact h condition ⟨before, later, hsplit, hlater⟩

end

namespace Render

open Markup Session Moment

/-! ## Actions -/

section

variable {env : Environment} {strict : Bool} {α : Type} {s : Session}

theorem setting_withStrict (line : Option Int) :
    s.setting (env.withStrict strict) line = (s.setting env line).withStrict strict := rfl

theorem evaluating_withStrict {line : Option Int} {f : Setting → Except Error α}
    (h : f ((s.setting env line).withStrict strict) = f (s.setting env line)) :
    evaluating (env.withStrict strict) line f s = evaluating env line f s := by
  unfold evaluating
  rw [setting_withStrict, h]

theorem evaluate_withStrict {line : Option Int} {e : Expr} (h : e.FindsAll (s.setting env line)) :
    evaluate (env.withStrict strict) line e s = evaluate env line e s :=
  evaluating_withStrict (e.eval_withStrict h)

theorem eq_of_evaluate {line : Option Int} {e : Expr} {v : Value} {s' : Session}
    (h : evaluate env line e s = .ok v s') : e.eval (s.setting env line) = .ok v ∧ s = s' :=
  evaluating_eq_ok.mp h

theorem loopArgument_withStrict {line : Int} {argument : Option Expr}
    (h : ∀ e, argument = some e → e.FindsAll (s.setting env (some line))) :
    loopArgument (env.withStrict strict) line argument s = loopArgument env line argument s := by
  cases argument with
  | none => rfl
  | some e =>
    rw [loopArgument_some, loopArgument_some]
    refine bind_congr (evaluate_withStrict (h e rfl)) fun v s' hv => ?_
    cases v <;> rfl

theorem loopItems_withStrict {line : Int} {head : LoopHead}
    (hcollection : head.collection.FindsAll (s.setting env (some line)))
    (harguments : ∀ e, ReachesArgument env s line head e →
      e.FindsAll (s.setting env (some line))) :
    loopItems (env.withStrict strict) line head s = loopItems env line head s := by
  unfold loopItems
  refine bind_congr (evaluate_withStrict hcollection) fun v s' hv => ?_
  obtain ⟨hvalue, rfl⟩ := eq_of_evaluate hv
  have hhost : (env.withStrict strict).host = env.host := rfl
  rw [hhost]
  cases hitems : v.items? env.host with
  | error o => rfl
  | ok items =>
    refine bind_congr (loopArgument_withStrict fun e he => ?_) fun offset s' hoffset => ?_
    · exact harguments e (.offset hvalue hitems he)
    · obtain rfl := eq_of_loopArgument hoffset
      refine bind_congr (loopArgument_withStrict fun e he => ?_) fun limit s' hlimit => rfl
      exact harguments e (.limit hvalue hitems hoffset he)

theorem needs_withStrict {line : Int} {i : Inclusion}
    (hname : i.template.FindsAll (s.setting env (some line)))
    (hbound : ∀ name t s' e, partialName env line i s = .ok name s →
      loadPartial env name s = .ok t s' → i.bound = some e →
      e.FindsAll (s.setting env (some line))) :
    needs (env.withStrict strict) line i s = needs env line i s := by
  unfold needs
  refine bind_congr ?_ fun name s₁ hname => ?_
  · rw [partialName_eq, partialName_eq]
    exact bind_congr (evaluate_withStrict hname) fun v s' hv => rfl
  obtain rfl : s = s₁ := after_of_ok hname ▸ still_partialName env line i s
  refine bind_congr rfl fun t s₂ hload => bind_congr ?_ fun v s₃ hv => rfl
  unfold boundValue
  cases hi : i.bound with
  | none => rfl
  | some e =>
    refine evaluate_withStrict ?_
    rw [setting_of_loadPartial hload]
    exact hbound name t s₂ e hname hload hi

end

/-! ## Tasks -/

/-- A lookup that a task comes to finds nothing. -/
def Task.Misses (env : Environment) (s : Session) (task : Task) : Prop :=
  ∃ line e, task.Evaluates env s line e ∧ ¬ e.FindsAll (s.setting env (some line))

section

variable {env : Environment} {strict : Bool} {s : Session}

theorem carryOut_withStrict (task : Task) (h : ¬ task.Misses env s) :
    task.carryOut (env.withStrict strict) s = task.carryOut env s := by
  have hfinds : ∀ line e, task.Evaluates env s line e → e.FindsAll (s.setting env (some line)) := by
    intro line e hevaluates
    by_contra hmisses
    exact h ⟨line, e, hevaluates, hmisses⟩
  cases task with
  | node node =>
    cases node with
    | output line markup e =>
      exact bind_congr (evaluate_withStrict (hfinds _ _ .output)) fun v s' hv => rfl
    | assign line assignment =>
      exact bind_congr (evaluate_withStrict (hfinds _ _ .assign)) fun v s' hv => rfl
    | loop line head body otherwise =>
      refine bind_congr ?_ fun items s' hitems => rfl
      refine loopItems_withStrict (hfinds _ _ .collection) fun e hreaches => ?_
      exact hfinds _ _ (.argument hreaches)
    | inclusion line i =>
      refine bind_congr ?_ fun found s' hfound => rfl
      refine needs_withStrict (hfinds _ _ .name) fun name t s' e hname hload he => ?_
      exact hfinds _ _ (.bound hname hload he)
    | _ => rfl
  | branches line isNegated branches otherwise =>
    cases branches with
    | nil => rfl
    | cons branch rest =>
      obtain ⟨chain, body⟩ := branch
      refine bind_congr (evaluating_withStrict ?_) fun holds s' hholds => rfl
      refine chain.eval_withStrict fun condition hreaches e hevaluates => ?_
      exact hfinds _ _ (.condition hreaches hevaluates)
  | attributes line attributes =>
    cases attributes with
    | nil => rfl
    | cons first rest =>
      exact bind_congr (evaluate_withStrict (hfinds _ _ .attribute)) fun v s' hv => rfl
  | nodes ns => cases ns <;> rfl
  | items owner name body index0 vs => cases vs <;> rfl
  | each name body vs => cases vs <;> rfl
  | _ => rfl

theorem fails_of_misses {task : Task} (hstrict : env.strict = true) (h : task.Misses env s) :
    ∃ u, task.Fails env s (.undefined u) := by
  obtain ⟨line, e, hevaluates, hmisses⟩ := h
  obtain ⟨e', hvisits, hnothing⟩ : ∃ e', e.Visits (s.setting env (some line)) e' ∧
      e'.FindsNothing (s.setting env (some line)) := by
    by_contra hnone
    exact hmisses fun e' hvisits hnothing => hnone ⟨e', hvisits, hnothing⟩
  cases e' with
  | lookup root path markup =>
    have hfails : (Expr.lookup root path markup).eval (s.setting env (some line)) = _ :=
      Expr.eval_of_fails (.undefined hnothing hstrict)
    exact ⟨_, .evaluation hevaluates (Expr.eval_of_visits hvisits hfails)⟩
  | literal v => cases hnothing
  | range start stop => cases hnothing

end

/-! ## Renderings -/

def Moment.Misses (env : Environment) (m : Moment) : Prop :=
  ∃ task rest s, m = ⟨task :: rest, s, none⟩ ∧ task.Misses env s

/-- A lookup that the rendering of these nodes comes to finds nothing. -/
def MissesOne (env : Environment) (ns : List Node) (s : Session) : Prop :=
  ∃ m, Leads env (first ns s) m ∧ m.Misses env

section

variable {env : Environment} {strict : Bool} {ns : List Node} {s : Session}

theorem next_withStrict {m : Moment} (h : ¬ m.Misses env) :
    m.next env = m.next (env.withStrict strict) := by
  obtain ⟨tasks, s, error⟩ := m
  cases tasks with
  | nil => rfl
  | cons task rest =>
    cases error with
    | some e => rfl
    | none =>
      have hcarry : task.carryOut (env.withStrict strict) s = task.carryOut env s :=
        carryOut_withStrict task fun hmisses => h ⟨task, rest, s, rfl, hmisses⟩
      show ofResult rest _ = ofResult rest _
      rw [hcarry]

theorem nodes_withStrict (h : ¬ MissesOne env ns s) :
    nodes env ns s = nodes (env.withStrict strict) ns s :=
  nodes_congr fun m hm => next_withStrict fun hmisses => h ⟨m, hm, hmisses⟩

theorem undefined_of_misses (hstrict : env.strict = true) (h : MissesOne env ns s) :
    ∃ u s', nodes env ns s = .error (.undefined u) s' := by
  obtain ⟨m, hm, task, rest, s', rfl, hmisses⟩ := h
  obtain ⟨u, hfails⟩ := fails_of_misses hstrict hmisses
  obtain ⟨s'', herror⟩ := raises_nodes_iff.mpr ⟨_, hm, task, rest, s', rfl, hfails⟩
  exact ⟨u, s'', herror⟩

end

theorem strict_or_same (env : Environment) (ns : List Node) (s : Session) :
    (∃ u s', nodes (env.withStrict true) ns s = .error (.undefined u) s') ∨
      nodes (env.withStrict true) ns s = nodes (env.withStrict false) ns s := by
  by_cases h : MissesOne (env.withStrict true) ns s
  · exact .inl (undefined_of_misses rfl h)
  · exact .inr (nodes_withStrict h)

theorem render_strict_or_same (env : Environment) (t : Template) (bindings : Frame) :
    (∃ u, t.render (env.withStrict true) bindings = .error (.undefined u)) ∨
      t.render (env.withStrict true) bindings = t.render (env.withStrict false) bindings := by
  have hstart : Session.start (env.withStrict true) bindings t.name =
      Session.start (env.withStrict false) bindings t.name := rfl
  unfold Template.render
  rw [← hstart]
  rcases strict_or_same env t.nodes (Session.start (env.withStrict true) bindings t.name) with
    ⟨u, s', h⟩ | h
  · rw [h]
    exact .inl ⟨u, rfl⟩
  · rw [h]
    exact .inr rfl

/--
Where every variable must be bound, nodes end with one that is not, or else just as they do where
none must be, in the same session; and so do templates, of which a text that comes out is the text
that comes out otherwise. It is the first whenever a lookup finds nothing that rendering comes to.
-/
theorem strict_adds_only_undefined (env : Environment) :
    (∀ ns s, (∃ u s', nodes (env.withStrict true) ns s = .error (.undefined u) s') ∨
      nodes (env.withStrict true) ns s = nodes (env.withStrict false) ns s) ∧
    (∀ ns s,
      (MissesOne (env.withStrict true) ns s →
        ∃ u s', nodes (env.withStrict true) ns s = .error (.undefined u) s') ∧
      (¬ MissesOne (env.withStrict true) ns s →
        nodes (env.withStrict true) ns s = nodes (env.withStrict false) ns s)) ∧
    ∀ t bindings,
      ((∃ u, Template.render (env.withStrict true) t bindings = .error (.undefined u)) ∨
        t.render (env.withStrict true) bindings = t.render (env.withStrict false) bindings) ∧
      ∀ text, t.render (env.withStrict true) bindings = .ok text →
        t.render (env.withStrict false) bindings = .ok text := by
  refine ⟨strict_or_same env, fun ns s => ?_, fun t bindings => ?_⟩
  · exact ⟨undefined_of_misses rfl, nodes_withStrict⟩
  · refine ⟨render_strict_or_same env t bindings, fun text htext => ?_⟩
    rcases render_strict_or_same env t bindings with ⟨u, h⟩ | h
    · rw [htext] at h
      cases h
    · exact h.symm.trans htext

theorem unbound_variable_is_missed :
    MissesOne (selfIncluding.withStrict true) [.output 1 "y" (.lookup (.name "y") [] "y")]
      (Session.start selfIncluding [] none) ∧
    ∃ u s', nodes (selfIncluding.withStrict true) [.output 1 "y" (.lookup (.name "y") [] "y")]
      (Session.start selfIncluding [] none) = .error (.undefined u) s' := by
  have hmisses : MissesOne (selfIncluding.withStrict true)
      [.output 1 "y" (.lookup (.name "y") [] "y")] (Session.start selfIncluding [] none) := by
    refine ⟨_, ⟨1, rfl⟩, _, _, _, rfl, 1, _, .output, fun hfinds => ?_⟩
    exact hfinds _ (.self _) ⟨.missing, rfl, rfl⟩
  obtain ⟨-, hexact, -⟩ := strict_adds_only_undefined selfIncluding
  exact ⟨hmisses, (hexact _ _).1 hmisses⟩

end Render

end Stencil
