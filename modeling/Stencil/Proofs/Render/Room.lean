import Stencil.Proofs.Render.Course

/-!
# More room for inclusions

Where more inclusions may nest, a rendering goes as it does where fewer may, up to the first
inclusion that is one too many there.
-/

namespace Stencil

def Environment.withLimit (env : Environment) (limit : Int) : Environment :=
  { env with maxDepth := limit }

/-- One inclusion too many, whoever says so. -/
def Error.isTooDeep : Error → Bool
  | .runtime e => e.fault.kind = .depth
  | _ => false

namespace Render

open Session Moment

/-! ## One moment -/

/-- The next task enters a partial, but no more inclusions may nest. -/
def Moment.Overruns (env : Environment) (m : Moment) : Prop :=
  ∃ line i name t v rest s, m = ⟨.entry line i name t v :: rest, s, none⟩ ∧ env.maxDepth ≤ s.depth

section

variable {env : Environment} {limit limit' : Int} {s : Session}

/-- Only the entry to a partial asks for the limit. -/
theorem carryOut_withLimit {task : Task}
    (hentry : ∀ line i name t v, task ≠ .entry line i name t v) :
    task.carryOut (env.withLimit limit) s = task.carryOut (env.withLimit limit') s := by
  cases task with
  | entry line i name t v => exact absurd rfl (hentry line i name t v)
  | node n => cases n <;> rfl
  | nodes ns => cases ns <;> rfl
  | branches line isNegated branches otherwise => cases branches <;> rfl
  | items owner name body index0 vs => cases vs <;> rfl
  | attributes line attributes => cases attributes <;> rfl
  | each name body vs => cases vs <;> rfl
  | _ => rfl

theorem next_withLimit (hle : limit ≤ limit') {m : Moment}
    (h : ¬ m.Overruns (env.withLimit limit)) :
    m.next (env.withLimit limit) = m.next (env.withLimit limit') := by
  obtain ⟨tasks, s, error⟩ := m
  cases tasks with
  | nil => rfl
  | cons task rest =>
    cases error with
    | some e => rfl
    | none =>
      by_cases hentry : ∃ line i name t v, task = .entry line i name t v
      · obtain ⟨line, i, name, t, v, rfl⟩ := hentry
        have hroom : ¬ (env.withLimit limit).maxDepth ≤ s.depth :=
          fun hfull => h ⟨line, i, name, t, v, rest, s, rfl, hfull⟩
        have hroom' : ¬ (env.withLimit limit').maxDepth ≤ s.depth :=
          fun hfull => hroom (Int.le_trans hle hfull)
        rw [next_entry, next_entry, if_neg hroom, if_neg hroom']
      · have hcarry : task.carryOut (env.withLimit limit) s =
            task.carryOut (env.withLimit limit') s :=
          carryOut_withLimit fun line i name t v htask => hentry ⟨line, i, name, t, v, htask⟩
        show ofResult rest _ = ofResult rest _
        rw [hcarry]

end

/-! ## Renderings -/

/-- The rendering of these nodes comes to an inclusion that is one too many. -/
def OverrunsLimit (env : Environment) (ns : List Node) (s : Session) : Prop :=
  ∃ m, Leads env (first ns s) m ∧ m.Overruns env

section

variable {env : Environment} {limit limit' : Int} {ns : List Node} {s : Session}

theorem nodes_withLimit (hle : limit ≤ limit') (h : ¬ OverrunsLimit (env.withLimit limit) ns s) :
    nodes (env.withLimit limit) ns s = nodes (env.withLimit limit') ns s :=
  nodes_congr fun m hm => next_withLimit hle fun hoverruns => h ⟨m, hm, hoverruns⟩

theorem tooDeep_of_overruns (h : OverrunsLimit env ns s) :
    ∃ name line s₁ s', nodes env ns s = .error (tooDeep env name line s₁) s' := by
  obtain ⟨m, hm, line, i, name, t, v, rest, s₁, rfl, hfull⟩ := h
  have hfails : Moment.Fails env ⟨.entry line i name t v :: rest, s₁, none⟩
      (tooDeep env name line s₁) := ⟨_, rest, s₁, rfl, .depth hfull⟩
  obtain ⟨s', herror⟩ := raises_nodes_iff.mpr ⟨_, hm, hfails⟩
  exact ⟨name, line, s₁, s', herror⟩

theorem not_overruns (h : ∀ e s', nodes env ns s = .error e s' → ¬ e.isTooDeep) :
    ¬ OverrunsLimit env ns s := by
  intro hoverruns
  obtain ⟨name, line, s₁, s', herror⟩ := tooDeep_of_overruns hoverruns
  exact h _ s' herror rfl

theorem render_withLimit (hle : limit ≤ limit') {t : Template} {bindings : Frame}
    (h : ∀ e, t.render (env.withLimit limit) bindings = .error e → ¬ e.isTooDeep) :
    t.render (env.withLimit limit') bindings = t.render (env.withLimit limit) bindings := by
  have hstart : Session.start (env.withLimit limit') bindings t.name =
      Session.start (env.withLimit limit) bindings t.name := rfl
  unfold Template.render at h ⊢
  have hfits : ¬ OverrunsLimit (env.withLimit limit) t.nodes
      (Session.start (env.withLimit limit) bindings t.name) := by
    refine not_overruns fun e s' herror => h e ?_
    rw [herror]
  rw [hstart, nodes_withLimit hle hfits]

end

/--
A rendering that does not end with one inclusion too many ends just the same, with the same text or
the same error, where more inclusions may nest. So do nodes in any session, and they leave the same
session; it is one inclusion too many whenever the rendering comes to enter a partial at the limit.
-/
theorem outcome_same_under_higher_limit (env : Environment) {limit limit' : Int}
    (hle : limit ≤ limit') :
    (∀ t bindings,
      (∀ e, Template.render (env.withLimit limit) t bindings = .error e → ¬ e.isTooDeep) →
      t.render (env.withLimit limit') bindings = t.render (env.withLimit limit) bindings) ∧
    ∀ ns s,
      (OverrunsLimit (env.withLimit limit) ns s →
        ∃ name line s₁ s', nodes (env.withLimit limit) ns s =
          .error (tooDeep (env.withLimit limit) name line s₁) s') ∧
      (¬ OverrunsLimit (env.withLimit limit) ns s →
        nodes (env.withLimit limit') ns s = nodes (env.withLimit limit) ns s) := by
  refine ⟨fun t bindings h => render_withLimit hle h, fun ns s => ⟨tooDeep_of_overruns, ?_⟩⟩
  intro h
  exact (nodes_withLimit hle h).symm

/-- Of the two partials, one includes the other. -/
def nestedPages : Environment where
  loader := some (.memory [("outer", "\x7b% include 'inner' %\x7d"), ("inner", "in")])
  strict := false
  maxDepth := 1
  globals := []
  tags := TagTable.default
  host := .plain

def nestedPage : Template where
  nodes := [.inclusion 1 (plainInclusion "outer" "'outer'")]
  name := some "page"
  file := none
  isPartial := false
  source := "\x7b% include 'outer' %\x7d"

theorem nested_nestedPage (limit : Int) :
    Nested (nestedPages.withLimit limit) [.text 1 "in"] ["outer", "inner"] nestedPage.nodes := by
  have houter : (nestedPages.withLimit limit).load "outer" true = .ok ⟨[.inclusion 1
      (plainInclusion "inner" "'inner'")], some "outer", none, true,
      "\x7b% include 'inner' %\x7d"⟩ := by
    with_unfolding_all rfl
  have hinner : (nestedPages.withLimit limit).load "inner" true =
      .ok ⟨[.text 1 "in"], some "inner", none, true, "in"⟩ := by
    with_unfolding_all rfl
  exact .outer (by decide) houter (.outer (by decide) hinner .inner)

theorem nested_page_same_under_higher_limit :
    nestedPage.render (nestedPages.withLimit 2) [] = .ok "in" ∧
      nestedPage.render (nestedPages.withLimit 5) [] = .ok "in" := by
  have hrender : nestedPage.render (nestedPages.withLimit 2) [] = .ok "in" := by
    have hscalar : Scalar ["outer", "inner"]
        (Session.start (nestedPages.withLimit 2) [] nestedPage.name) := fun _ _ => rfl
    obtain ⟨s, houtput, -, hresult⟩ :=
      render_of_room (nested_nestedPage 2) hscalar (show (2 : Int) ≤ 2 by decide)
    have hinner : result (nodes (nestedPages.withLimit 2) [.text 1 "in"]) s =
        .ok (s.output ++ "in") := by
      rw [result_nodes]
      cases room (nestedPages.withLimit 2) s <;> rfl
    rw [hresult, hinner, houtput]
    rfl
  obtain ⟨hsame, -⟩ := outcome_same_under_higher_limit nestedPages (show (2 : Int) ≤ 5 by decide)
  refine ⟨hrender, (hsame nestedPage [] fun e herror => ?_).trans hrender⟩
  rw [hrender] at herror
  cases herror

end Render

end Stencil
