import Stencil.Proofs.Render.Step

/-!
# The limit of inclusions

At every moment of a rendering the depth of the session counts the inclusions that are still to be
left. It never passes the limit: an inclusion that would pass it is refused.
-/

namespace Stencil.Render

open Markup Session Moment

/-! ## Inclusions that are still to be left -/

def Task.outerDepth? : Task → Option Nat
  | .leavePartial _ _ depth _ => some depth
  | _ => none

/-- The depths to which tasks go back one after the other. -/
def outerDepths (tasks : List Task) : List Nat := tasks.filterMap Task.outerDepth?

/-- From a depth one by one down to `start`. -/
def Descends (start : Nat) : Nat → List Nat → Prop
  | d, [] => d = start
  | d, outer :: rest => d = outer + 1 ∧ Descends start outer rest

/-- A moment of a rendering that began at the depth `start`. -/
structure Moment.Within (env : Environment) (start : Nat) (m : Moment) : Prop where
  counts : Descends start m.session.depth (outerDepths m.tasks)
  limit : m.session.depth ≤ env.maxDepth

/-- An action that neither enters nor leaves a partial. -/
def Quiet (action : Render (List Task)) : Prop :=
  ∀ s, match action s with
  | .ok more s' => s'.depth = s.depth ∧ outerDepths more = []
  | .error _ s' => s'.depth = s.depth

section

variable {env : Environment}

theorem outerDepths_append (tasks rest : List Task) :
    outerDepths (tasks ++ rest) = outerDepths tasks ++ outerDepths rest :=
  List.filterMap_append

theorem outerDepths_of_inner {tasks : List Task} (h : ∀ task ∈ tasks, task.IsInner) :
    outerDepths tasks = [] := by
  refine List.filterMap_eq_nil_iff.mpr fun task htask => ?_
  have hinner := h task htask
  cases task with
  | leavePartial template isPartial depth chain => cases hinner
  | _ => rfl

theorem quiet_carryOut {task : Task} (hentry : ∀ line i name t v, task ≠ .entry line i name t v)
    (hleave : task.outerDepth? = none) : Quiet (task.carryOut env) := by
  have hinside : Hands SamePartial Task.IsInner (task.carryOut env) := by
    refine hands_inside hentry ?_
    rintro template isPartial depth chain rfl
    cases hleave
  intro s
  have hs := hinside s
  cases hresult : task.carryOut env s with
  | ok more s' =>
    rw [hresult] at hs
    exact ⟨hs.1.depth, outerDepths_of_inner hs.2⟩
  | error e s' =>
    rw [hresult] at hs
    exact hs.depth

end

/-! ## The depth at every moment -/

namespace Moment

variable {env : Environment} {start : Nat}

theorem within_ofResult {action : Render (List Task)} (h : Quiet action) {s : Session}
    {rest : List Task} (hs : Descends start s.depth (outerDepths rest))
    (hlimit : s.depth ≤ env.maxDepth) : Within env start (ofResult rest (action s)) := by
  have hquiet := h s
  cases hresult : action s with
  | ok more s' =>
    rw [hresult] at hquiet
    obtain ⟨hdepth, hmore⟩ := hquiet
    refine ⟨?_, hdepth ▸ hlimit⟩
    show Descends start s'.depth (outerDepths (more ++ rest))
    rwa [outerDepths_append, hmore, hdepth]
  | error e s' =>
    rw [hresult] at hquiet
    exact ⟨(hquiet : s'.depth = s.depth) ▸ hs, hquiet ▸ hlimit⟩

theorem undo_depth {task : Task} (h : task.outerDepth? = none) (s : Session) :
    (task.undo s).depth = s.depth := by
  cases task <;> first | rfl | nomatch h

theorem outerDepths_cons_of_none {task : Task} (h : task.outerDepth? = none) (rest : List Task) :
    outerDepths (task :: rest) = outerDepths rest := List.filterMap_cons_none h

theorem Within.next {m : Moment} (h : Within env start m) : Within env start (m.next env) := by
  obtain ⟨tasks, s, error⟩ := m
  obtain ⟨hcounts, hlimit⟩ : Descends start s.depth (outerDepths tasks) ∧ s.depth ≤ env.maxDepth :=
    ⟨h.counts, h.limit⟩
  cases tasks with
  | nil => exact ⟨hcounts, hlimit⟩
  | cons task rest =>
    -- An error on its way out takes a partial off the tasks just as the end of the partial does.
    cases hleave : task.outerDepth? with
    | some outer =>
      cases task with
      | leavePartial template isPartial depth chain =>
        obtain ⟨hdepth, hrest⟩ : s.depth = depth + 1 ∧ Descends start depth (outerDepths rest) :=
          hcounts
        cases error <;> exact ⟨hrest, show (depth : Int) ≤ env.maxDepth by omega⟩
      | _ => nomatch hleave
    | none =>
      have hrest : Descends start s.depth (outerDepths rest) := by
        rwa [outerDepths_cons_of_none hleave] at hcounts
      cases error with
      | some e =>
        have hdepth := undo_depth hleave s
        exact ⟨hdepth ▸ hrest, hdepth ▸ hlimit⟩
      | none =>
        by_cases hentry : ∃ line i name t v, task = .entry line i name t v
        · obtain ⟨line, i, name, t, v, rfl⟩ := hentry
          show Within env start (ofResult rest (enterPartial env line i name t v s))
          unfold enterPartial
          split
          · exact ⟨hrest, hlimit⟩
          · next hroom => exact ⟨⟨rfl, hrest⟩, show ((s.depth + 1 : Nat) : Int) ≤ _ by omega⟩
        · refine within_ofResult (quiet_carryOut ?_ hleave) hrest hlimit
          rintro line i name t v rfl
          exact hentry ⟨line, i, name, t, v, rfl⟩

theorem Within.leads {m m' : Moment} (h : Within env start m) (hm : Leads env m m') :
    Within env start m' := by
  obtain ⟨n, rfl⟩ := hm
  induction n with
  | zero => exact h
  | succ n ih =>
    rw [Function.iterate_succ_apply']
    exact ih.next

end Moment

/-! ## Inclusions -/

section

variable {env : Environment} {line : Int} {i : Inclusion} {name : String} {p : Template} {v : Value}
  {s s' : Session} {rest : List Task}

theorem next_entry :
    next env ⟨.entry line i name p v :: rest, s, none⟩ =
      if env.maxDepth ≤ s.depth then ⟨rest, s, some (tooDeep env name line s)⟩
      else ⟨entryTasks line i name p v s ++ rest, entered name line s, none⟩ := by
  show ofResult rest (enterPartial env line i name p v s) = _
  unfold enterPartial
  split <;> rfl

theorem next_inclusion {line : Nat} (h : needs env line i s = .ok (name, p, v) s') :
    next env ⟨.node (.inclusion line i) :: rest, s, none⟩ =
      ⟨.entry line i name p v :: rest, s', none⟩ := by
  show ofResult rest ((needs env line i >>= fun _ => _) s) = _
  rw [bind_of_ok h]
  rfl

end

/-! ## Renderings of whole templates -/

def Moment.start (env : Environment) (t : Template) (bindings : Frame) : Moment :=
  first t.nodes (Session.start env bindings t.name)

section

variable {env : Environment} {t : Template} {bindings : Frame}

theorem start_leads_to_render :
    ∃ m, Leads env (Moment.start env t bindings) m ∧ m.isLast ∧
      m.outcome = t.render env bindings := by
  refine ⟨_, leads_nodes env _ _, ?_⟩
  unfold Template.render
  cases nodes env t.nodes (Session.start env bindings t.name) <;> exact ⟨rfl, rfl⟩

theorem within_start (hlimit : 0 ≤ env.maxDepth) :
    Within env 0 (Moment.start env t bindings) := ⟨rfl, hlimit⟩

theorem current_start : Current env (Session.start env bindings t.name) := nofun

theorem result_nodes (ns : List Node) (s : Session) :
    result (nodes env ns) s = result (renderWithin env (loadPartial env) (room env s) ns) s := rfl

theorem render_eq_result : t.render env bindings =
    result (renderWithin env (loadPartial env) env.maxDepth.toNat t.nodes)
      (Session.start env bindings t.name) := by
  have hroom : room env (Session.start env bindings t.name) = env.maxDepth.toNat :=
    congrArg Int.toNat (Int.sub_zero _)
  rw [← hroom]
  rfl

theorem depth_le_limit (hlimit : 0 ≤ env.maxDepth) {m : Moment}
    (hm : Leads env (Moment.start env t bindings) m) : m.session.depth ≤ env.maxDepth :=
  ((within_start hlimit).leads hm).limit

/-- An inclusion takes two steps: it finds what it needs, and it enters its partial if it may. -/
theorem next_next_inclusion (hlimit : 0 ≤ env.maxDepth) {line : Nat} {i : Inclusion}
    {rest : List Task} {s s' : Session} {name : String} {p : Template} {v : Value}
    (hm : Leads env (Moment.start env t bindings) ⟨.node (.inclusion line i) :: rest, s, none⟩)
    (hneeds : needs env line i s = .ok (name, p, v) s') :
    s'.output = s.output ∧ s'.depth = s.depth ∧
      (next env)^[2] ⟨.node (.inclusion line i) :: rest, s, none⟩ =
        if s.depth = env.maxDepth then ⟨rest, s', some (tooDeep env name line s')⟩
        else ⟨entryTasks line i name p v s' ++ rest, entered name line s', none⟩ := by
  have hdepth : s.depth ≤ env.maxDepth := depth_le_limit hlimit hm
  obtain ⟨reads, partials, rfl⟩ : ReadsMore s s' := after_of_ok hneeds ▸ readsMore_needs s
  refine ⟨rfl, rfl, ?_⟩
  rw [Function.iterate_succ_apply, Function.iterate_one, next_inclusion hneeds, next_entry]
  refine if_congr ?_ rfl rfl
  show env.maxDepth ≤ s.depth ↔ s.depth = env.maxDepth
  omega

section

variable {inner : List Node} {names : List String}

theorem render_of_room (hnested : Nested env inner names t.nodes)
    (hscalar : Scalar names (Session.start env bindings t.name))
    (hroom : names.length ≤ env.maxDepth) :
    ∃ s, s.output = "" ∧ s.depth = names.length ∧
      t.render env bindings = result (nodes env inner) s := by
  obtain ⟨s, houtput, hdepth, hresult⟩ :=
    result_of_room hnested env.maxDepth.toNat (by omega) current_start hscalar
  replace hdepth : s.depth = names.length := hdepth.trans (Nat.zero_add _)
  refine ⟨s, houtput, hdepth, ?_⟩
  have hleft : room env s = env.maxDepth.toNat - names.length := by
    unfold room
    omega
  rw [render_eq_result, hresult, result_nodes, hleft]

theorem render_of_no_room (hlimit : 0 ≤ env.maxDepth) (hnested : Nested env inner names t.nodes)
    (hscalar : Scalar names (Session.start env bindings t.name))
    (hroom : env.maxDepth < names.length) :
    ∃ name line s, names[env.maxDepth.toNat]? = some name ∧ s.depth = env.maxDepth ∧
      t.render env bindings = .error (tooDeep env name line s) := by
  have hshort : env.maxDepth.toNat < names.length := by omega
  obtain ⟨line, s, hdepth, hresult⟩ := result_of_no_room hnested _ hshort current_start hscalar
  replace hdepth : s.depth = env.maxDepth.toNat := hdepth.trans (Nat.zero_add _)
  refine ⟨_, line, s, List.getElem?_eq_getElem hshort, by omega, ?_⟩
  rw [render_eq_result, hresult]

end

end

/--
Every rendering ends. At no moment of it is the session deeper than the limit; an inclusion that has
all it needs is refused, with nothing written, exactly at the limit; and so as many partials as the
limit says may nest, and no more.
-/
theorem rendering_ends_within_limit (env : Environment) (hlimit : 1 ≤ env.maxDepth) (t : Template)
    (bindings : Frame) :
    (∃ m, Leads env (Moment.start env t bindings) m ∧ m.isLast ∧
      m.outcome = t.render env bindings) ∧
    (∀ m, Leads env (Moment.start env t bindings) m → m.session.depth ≤ env.maxDepth) ∧
    (∀ (line : Nat) i rest s name p v s',
      Leads env (Moment.start env t bindings) ⟨.node (.inclusion line i) :: rest, s, none⟩ →
      needs env line i s = .ok (name, p, v) s' →
      s'.output = s.output ∧ s'.depth = s.depth ∧
      (next env)^[2] ⟨.node (.inclusion line i) :: rest, s, none⟩ =
        if s.depth = env.maxDepth then ⟨rest, s', some (tooDeep env name line s')⟩
        else ⟨entryTasks line i name p v s' ++ rest, entered name line s', none⟩) ∧
    (∀ inner names, Nested env inner names t.nodes →
      Scalar names (Session.start env bindings t.name) →
      (names.length ≤ env.maxDepth → ∃ s, s.output = "" ∧ s.depth = names.length ∧
        t.render env bindings = result (nodes env inner) s) ∧
      (env.maxDepth < names.length → ∃ name line s, names[env.maxDepth.toNat]? = some name ∧
        s.depth = env.maxDepth ∧ t.render env bindings = .error (tooDeep env name line s))) := by
  have hzero : 0 ≤ env.maxDepth := by omega
  refine ⟨start_leads_to_render, fun m hm => depth_le_limit hzero hm, ?_, ?_⟩
  · intro line i rest s name p v s' hm hneeds
    exact next_next_inclusion hzero hm hneeds
  · intro inner names hnested hscalar
    constructor
    · intro hroom
      exact render_of_room hnested hscalar hroom
    · intro hroom
      exact render_of_no_room hzero hnested hscalar hroom

/-- A partial that includes itself, in an environment that admits three inclusions. -/
def selfIncluding : Environment where
  loader := some (.memory [("self", "\x7b% include 'self' %\x7d")])
  strict := false
  maxDepth := 3
  globals := []
  tags := TagTable.default
  host := .plain

def selfIncludingPartial : Template where
  nodes := [.inclusion 1 (plainInclusion "self" "'self'")]
  name := some "self"
  file := none
  isPartial := true
  source := "\x7b% include 'self' %\x7d"

theorem rendering_ends_within_limit_self : 1 ≤ selfIncluding.maxDepth ∧
    ∃ line s, s.depth = 3 ∧
      selfIncludingPartial.render selfIncluding [] =
        .error (tooDeep selfIncluding "self" line s) := by
  have hlimit : 1 ≤ selfIncluding.maxDepth := by decide
  have hload : selfIncluding.load "self" true = .ok selfIncludingPartial := by
    with_unfolding_all rfl
  have hnested : Nested selfIncluding selfIncludingPartial.nodes ["self", "self", "self", "self"]
      selfIncludingPartial.nodes := by
    refine .outer (by decide) hload (.outer (by decide) hload ?_)
    exact .outer (by decide) hload (.outer (by decide) hload .inner)
  obtain ⟨-, -, -, hchains⟩ :=
    rendering_ends_within_limit selfIncluding hlimit selfIncludingPartial []
  obtain ⟨name, line, s, hname, hdepth, hrender⟩ :=
    (hchains _ _ hnested fun name _ => rfl).2 (by decide)
  obtain rfl : "self" = name := Option.some.inj hname
  exact ⟨hlimit, line, s, Int.ofNat.inj hdepth, hrender⟩

end Stencil.Render
