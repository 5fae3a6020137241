import Stencil.Proofs.Loader.Failure
import Stencil.Proofs.Render.Closure
import Stencil.Proofs.Render.Placement
import Stencil.Proofs.Render.Step

/-!
# The chain of inclusions

Beside a rendering a record is kept of the inclusions that were entered and not left again. At every
moment the session says just what the record does: how many they are, which template is being
rendered, and by which tags rendering came there.
-/

namespace Stencil

open Markup

theorem Token.one_le_line {source : String} {tok : Token} (h : tok ∈ Token.all source) :
    1 ≤ tok.line := by
  have hnumber : ∀ ps line, tok ∈ Token.number line ps → line ≤ tok.line := by
    intro ps
    induction ps with
    | nil => nofun
    | cons p ps ih =>
      intro line htok
      rcases List.mem_cons.mp htok with rfl | htok
      · exact Nat.le_refl _
      · exact Nat.le_trans (Nat.le_add_right _ _) (ih _ htok)
  exact hnumber _ 1 h

/-- The error says that one inclusion more would be too many. -/
def Error.isRefusal : Error → Bool
  | .runtime e => match e.fault with
    | .depth .. => true
    | _ => false
  | _ => false

section

variable {s : Setting} {error : Error}

theorem not_isRefusal_stated (kind : ErrorKind) (message : String) :
    ¬ (Error.stated kind message).isRefusal := by
  cases kind with
  | runtime kind => cases kind <;> nofun
  | _ => nofun

theorem Error.Quotes.not_isRefusal {shown : List Value} (h : error.Quotes s shown) :
    ¬ error.isRefusal := by
  obtain ⟨fault, expression, rfl, hkind⟩ | ⟨rfl, -⟩ := h.cases
  · cases fault with
    | depth limit name => cases hkind
    | _ => nofun
  · nofun

theorem not_isRefusal_of_whole {unreadable : Error} {shown : List Value} {v : Value}
    (hquotes : unreadable.Quotes s shown) (h : s.whole unreadable v = .error error) :
    ¬ error.isRefusal := by
  rcases whole_of_error h with ⟨-, rfl⟩ | ⟨-, rfl⟩
  · exact hquotes.not_isRefusal
  · nofun

theorem Expr.not_isRefusal_of_eval {e : Expr} (h : e.eval s = .error error) :
    ¬ error.isRefusal := by
  obtain ⟨e', -, hfails⟩ := Expr.eval_eq_error_iff.mp h
  cases hfails with
  | low _ _ hwhole => exact not_isRefusal_of_whole (quotes_boundsError _ _) hwhole
  | high _ _ _ hwhole => exact not_isRefusal_of_whole (quotes_boundsError _ _) hwhole
  | @reading _ _ _ _ _ _ _ _ fault _ _ _ _ _ =>
    cases fault with
    | own kind message => exact not_isRefusal_stated kind message
    | _ => exact (quotes_readError (by rintro _ _ ⟨⟩)).not_isRefusal
  | undefined => nofun

theorem Environment.not_isRefusal_of_load {env : Environment} {name : String} {isPartial : Bool}
    (h : env.load name isPartial = .error error) : ¬ error.isRefusal := by
  rcases except_bind_eq_error.mp h with hsource | ⟨source, -, hparse⟩
  · have hloading := isOfLoading_getSource hsource
    cases error with
    | runtime e => cases hloading
    | _ => nofun
  · unfold Environment.parse at hparse
    split at hparse <;> (cases hparse; try nofun)

end

namespace Render

open Session Moment

/-! ## The record of open inclusions -/

/-- An inclusion whose partial is being rendered, with the line of its tag. -/
structure OpenInclusion where
  line : Int
  inclusion : Inclusion
  name : String

/-- The record after the next step. What is entered is added, and what is left is taken off. -/
def Moment.follow (env : Environment) (m : Moment) (opened : List OpenInclusion) :
    List OpenInclusion :=
  match m.tasks, m.error with
  | .entry line i name _ _ :: _, none =>
    if env.maxDepth ≤ m.session.depth then opened else opened ++ [⟨line, i, name⟩]
  | .leavePartial .. :: _, _ => opened.dropLast
  | _, _ => opened

/-- The inclusions that are open some steps after a moment, the outermost first. -/
def openInclusions (env : Environment) (m : Moment) : Nat → List OpenInclusion
  | 0 => []
  | n + 1 => ((next env)^[n] m).follow env (openInclusions env m n)

/-- The tag of the inclusion stands in a template of this name, and there is a partial for it. -/
structure OpenInclusion.StandsIn (env : Environment) (t : Template) (including : Option String)
    (o : OpenInclusion) : Prop where
  tag : ∃ T tok, Known env t T ∧ T.name = including ∧ tok ∈ T.tokens ∧
    (tok.line : Int) = o.line ∧ tok.Starts env.tags (.node (.inclusion tok.line o.inclusion))
  found : ∃ p, env.load o.name true = .ok p
  named : o.name ≠ ""

/-- Each of the inclusions stands in the partial of the one before it. -/
def Stand (env : Environment) (t : Template) : Option String → List OpenInclusion → Prop
  | _, [] => True
  | including, o :: inner => o.StandsIn env t including ∧ Stand env t (some o.name) inner

/-! ## What the session should say -/

/-- The name of the last partial; without any, that of the outermost template. -/
def templateOf (root : Option String) (opened : List OpenInclusion) : Option String :=
  (opened.getLast?.map (·.name)).or root

/-- Each inclusion by the template that its tag stands in, and the line. -/
def chainFrom (including : String) : List OpenInclusion → IncludeChain
  | [] => []
  | o :: inner => (including, o.line) :: chainFrom o.name inner

/-- What stands in an outermost template without a name is left out. -/
def chainOf (root : Option String) (opened : List OpenInclusion) : IncludeChain :=
  match stated? root, opened with
  | some name, opened => chainFrom name opened
  | none, [] => []
  | none, o :: inner => chainFrom o.name inner

/-- The session says that it is inside of these inclusions. -/
structure Tells (root : Option String) (opened : List OpenInclusion) (s : Session) : Prop where
  depth : s.depth = opened.length
  template : s.template = templateOf root opened
  isPartial : s.isPartial = decide (0 < opened.length)
  chain : s.chain = chainOf root opened

section

variable {root : Option String} {opened : List OpenInclusion} {o : OpenInclusion}

theorem templateOf_concat : templateOf root (opened ++ [o]) = some o.name := by
  simp [templateOf]

theorem templateOf_cons : templateOf root (o :: opened) = templateOf (some o.name) opened := by
  unfold templateOf
  rw [List.getLast?_cons]
  cases opened.getLast? <;> rfl

theorem link_of_ne {name : String} {line : Int} (hname : name ≠ "") (hline : line ≠ 0) :
    link (some name) line = [(name, line)] := by
  have hstated : stated? (some name) = some name := by simp [stated?, Option.filter, hname]
  simp [link, hstated, hline]

theorem length_chainFrom {including : String} :
    (chainFrom including opened).length = opened.length := by
  induction opened generalizing including with
  | nil => rfl
  | cons first inner ih => exact congrArg (· + 1) ih

theorem chainFrom_concat {including : String} (hincluding : including ≠ "")
    (hnamed : ∀ o ∈ opened, o.name ≠ "") (hline : o.line ≠ 0) :
    chainFrom including (opened ++ [o]) =
      chainFrom including opened ++ link (templateOf (some including) opened) o.line := by
  induction opened generalizing including with
  | nil => exact (link_of_ne hincluding hline).symm
  | cons first inner ih =>
    obtain ⟨hfirst, hinner⟩ := List.forall_mem_cons.mp hnamed
    rw [List.cons_append, chainFrom, ih hfirst hinner, templateOf_cons]
    rfl

theorem chainOf_concat (hnamed : ∀ o ∈ opened, o.name ≠ "") (hline : o.line ≠ 0) :
    chainOf root (opened ++ [o]) = chainOf root opened ++ link (templateOf root opened) o.line := by
  unfold chainOf
  cases hroot : stated? root with
  | some name =>
    obtain ⟨rfl, hname⟩ : root = some name ∧ name ≠ "" := by simpa [stated?] using hroot
    exact chainFrom_concat hname hnamed hline
  | none =>
    cases opened with
    | nil =>
      simp only [List.nil_append, chainFrom]
      show [] = link root o.line
      unfold link
      rw [hroot]
    | cons first inner =>
      obtain ⟨hfirst, hinner⟩ := List.forall_mem_cons.mp hnamed
      rw [templateOf_cons]
      exact chainFrom_concat hfirst hinner hline

end

section

variable {env : Environment} {t : Template} {root : Option String} {opened : List OpenInclusion}
  {o : OpenInclusion} {s s' : Session}

theorem stand_concat :
    Stand env t root (opened ++ [o]) ↔
      Stand env t root opened ∧ o.StandsIn env t (templateOf root opened) := by
  induction opened generalizing root with
  | nil => simp [Stand, templateOf]
  | cons first inner ih =>
    rw [templateOf_cons, List.cons_append, Stand, Stand, ih, and_assoc]

theorem Stand.named (h : Stand env t root opened) : ∀ o ∈ opened, o.name ≠ "" := by
  induction opened generalizing root with
  | nil => nofun
  | cons first inner ih =>
    obtain ⟨hfirst, hinner⟩ := h
    exact List.forall_mem_cons.mpr ⟨hfirst.named, ih hinner⟩

theorem OpenInclusion.StandsIn.line_ne (h : o.StandsIn env t root) : o.line ≠ 0 := by
  obtain ⟨T, tok, -, -, htok, hline, -⟩ := h.tag
  have hone : 1 ≤ tok.line := Token.one_le_line htok
  omega

theorem tells_start {bindings : Frame} : Tells root [] (Session.start env bindings root) :=
  ⟨rfl, rfl, rfl, by unfold chainOf; cases stated? root <;> rfl⟩

theorem Tells.keep (h : Tells root opened s) (hsame : SamePartial s s') : Tells root opened s' where
  depth := hsame.depth.trans h.depth
  template := hsame.template.trans h.template
  isPartial := hsame.isPartial.trans h.isPartial
  chain := hsame.chain.trans h.chain

theorem Tells.entered (h : Tells root opened s) (hnamed : ∀ o ∈ opened, o.name ≠ "")
    (hline : o.line ≠ 0) : Tells root (opened ++ [o]) (Render.entered o.name o.line s) where
  depth := by simpa [Render.entered] using h.depth
  template := templateOf_concat.symm
  isPartial := by simp [Render.entered]
  chain := by
    rw [chainOf_concat hnamed hline, ← h.chain, ← h.template]
    rfl

/-! ## The way out -/

/-- The way out of a partial, back to what the session said before. -/
def wayOut (root : Option String) (opened : List OpenInclusion) : Task :=
  .leavePartial (templateOf root opened) (decide (0 < opened.length)) opened.length
    (chainOf root opened)

/-- For each open inclusion the tasks have the way out, the innermost first. -/
inductive Returns (root : Option String) : List OpenInclusion → List Task → Prop
  | done : Returns root [] []
  | task {opened : List OpenInclusion} {task : Task} {rest : List Task} : task.IsInner →
    Returns root opened rest → Returns root opened (task :: rest)
  | leave {opened : List OpenInclusion} {o : OpenInclusion} {rest : List Task} :
    Returns root opened rest → Returns root (opened ++ [o]) (wayOut root opened :: rest)

/-- The record is right at this moment. -/
structure Moment.Follows (env : Environment) (t : Template) (opened : List OpenInclusion)
    (m : Moment) : Prop where
  stand : Stand env t t.name opened
  account : Tells t.name opened m.session
  returns : Returns t.name opened m.tasks

theorem Returns.append {more rest : List Task} (hmore : ∀ task ∈ more, task.IsInner)
    (hrest : Returns root opened rest) : Returns root opened (more ++ rest) := by
  induction more with
  | nil => exact hrest
  | cons first more ih =>
    obtain ⟨hfirst, hmore⟩ := List.forall_mem_cons.mp hmore
    exact .task hfirst (ih hmore)

theorem Tells.wayOut_eq (h : Tells root opened s) :
    wayOut root opened = .leavePartial s.template s.isPartial s.depth s.chain := by
  rw [h.template, h.isPartial, h.depth, h.chain]
  rfl

theorem tells_undo_wayOut : Tells root opened ((wayOut root opened).undo s) := ⟨rfl, rfl, rfl, rfl⟩

/-! ## One step -/

theorem follow_of_inner {task : Task} {rest : List Task} {error : Option Error}
    (htask : task.IsInner) (h : error = none → ∀ line i name p v, task ≠ .entry line i name p v) :
    Moment.follow env ⟨task :: rest, s, error⟩ opened = opened := by
  cases task with
  | entry line i name p v =>
    cases error with
    | none => exact absurd rfl (h rfl line i name p v)
    | some e => rfl
  | leavePartial template isPartial depth chain => cases htask
  | _ => cases error <;> rfl

theorem follow_entry {line : Int} {i : Inclusion} {name : String} {p : Template} {v : Value}
    {rest : List Task} :
    Moment.follow env ⟨.entry line i name p v :: rest, s, none⟩ opened =
      if env.maxDepth ≤ s.depth then opened else opened ++ [⟨line, i, name⟩] := rfl

theorem follows_ofResult {action : Render (List Task)} {rest : List Task}
    (hstand : Stand env t t.name opened) (htells : Tells t.name opened s)
    (hrest : Returns t.name opened rest) (h : Hands SamePartial Task.IsInner action) :
    (ofResult rest (action s)).Follows env t opened := by
  have hs := h s
  cases hresult : action s with
  | ok more s' =>
    rw [hresult] at hs
    obtain ⟨hsame, hmore⟩ := hs
    exact ⟨hstand, htells.keep hsame, hrest.append hmore⟩
  | error e s' =>
    rw [hresult] at hs
    exact ⟨hstand, htells.keep hs, hrest⟩

theorem Moment.InPlace.standsIn {line : Int} {i : Inclusion} {name : String} {p : Template}
    {v : Value} {rest : List Task} {error : Option Error} (hname : name ≠ "")
    (h : Moment.InPlace env t ⟨.entry line i name p v :: rest, s, error⟩) :
    OpenInclusion.StandsIn env t s.template ⟨line, i, name⟩ := by
  have htasks := h.tasks
  generalize htemplate : s.template = template at htasks ⊢
  cases htasks with
  | task htask _ =>
    cases htask with
    | inside hknown hof =>
      obtain ⟨hload, tok, htok, hline, hstarts⟩ := hof
      exact ⟨⟨_, tok, hknown, rfl, htok, hline, hstarts⟩, ⟨p, hload⟩, hname⟩

theorem follows_entered {line : Int} {i : Inclusion} {name : String} {p : Template}
    {v : Value} {rest : List Task} (hstand : Stand env t t.name opened)
    (htells : Tells t.name opened s) (hrest : Returns t.name opened rest)
    (ho : OpenInclusion.StandsIn env t s.template ⟨line, i, name⟩) :
    Moment.Follows env t (opened ++ [⟨line, i, name⟩])
      ⟨entryTasks line i name p v s ++ rest, entered name line s, none⟩ := by
  have hstand' : Stand env t t.name (opened ++ [⟨line, i, name⟩]) :=
    stand_concat.mpr ⟨hstand, htells.template ▸ ho⟩
  refine ⟨hstand', htells.entered hstand.named ho.line_ne, ?_⟩
  show Returns _ _ (_ :: _ :: _ :: _ :: rest)
  rw [← htells.wayOut_eq]
  exact .task trivial (.task trivial (.task trivial (.leave hrest)))

theorem Moment.Follows.next {m : Moment} (h : m.Follows env t opened) (hplace : m.InPlace env t) :
    (m.next env).Follows env t (m.follow env opened) := by
  obtain ⟨tasks, s, error⟩ := m
  obtain ⟨hstand, htells, hreturns⟩ := h
  cases hreturns with
  | done => exact ⟨hstand, htells, .done⟩
  | @task _ task rest htask hrest =>
    have hleave : ∀ t isPartial d chain, task ≠ .leavePartial t isPartial d chain := by
      rintro _ _ _ _ rfl
      exact htask
    cases error with
    | some e =>
      have hfollow : Moment.follow env ⟨task :: rest, s, some e⟩ opened = opened :=
        follow_of_inner htask nofun
      rw [hfollow]
      exact ⟨hstand, htells.keep (minorChange_undo hleave s).toSamePartial, hrest⟩
    | none =>
      by_cases hentry : ∃ line i name p v, task = .entry line i name p v
      · obtain ⟨line, i, name, p, v, rfl⟩ := hentry
        have ho := hplace.standsIn htask
        rw [next_entry, follow_entry]
        split
        · exact ⟨hstand, htells, hrest⟩
        · exact follows_entered hstand htells hrest ho
      · have hother : ∀ line i name p v, task ≠ .entry line i name p v :=
          fun line i name p v htask => hentry ⟨line, i, name, p, v, htask⟩
        rw [follow_of_inner htask fun _ => hother]
        exact follows_ofResult hstand htells hrest (hands_inside hother hleave)
  | @leave opened o rest hrest =>
    -- The way out is the same whether an error is on its way or not.
    have hfollow : Moment.follow env ⟨wayOut t.name opened :: rest, s, error⟩ (opened ++ [o]) =
        opened := by
      cases error <;> exact List.dropLast_concat
    rw [hfollow]
    have hstand : Stand env t t.name opened := (stand_concat.mp hstand).1
    cases error <;> exact ⟨hstand, tells_undo_wayOut, hrest⟩

/-! ## Whole renderings -/

theorem follows_openInclusions (hwritten : AllWritten env.tags t.tokens t.nodes)
    (bindings : Frame) (n : Nat) :
    let m := (next env)^[n] (Moment.start env t bindings)
    m.InPlace env t ∧ m.Follows env t (openInclusions env (Moment.start env t bindings) n) := by
  induction n with
  | zero => exact ⟨inPlace_start hwritten, trivial, tells_start, .task trivial .done⟩
  | succ n ih =>
    obtain ⟨hplace, hfollows⟩ := ih
    rw [Function.iterate_succ_apply']
    exact ⟨hplace.next, hfollows.next hplace⟩

theorem exists_of_fails_refusal {task : Task} {error : Error} (h : task.Fails env s error)
    (hrefusal : error.isRefusal) :
    ∃ line i name p v, task = .entry line i name p v ∧ error = tooDeep env name line s := by
  cases h with
  | evaluation _ heval => exact absurd hrefusal (Expr.not_isRefusal_of_eval heval)
  | comparison _ hcompares =>
    cases hcompares
    exact absurd hrefusal (quotes_comparisonError _ _ _).not_isRefusal
  | output => cases hrefusal
  | items => cases hrefusal
  | argument _ _ _ hwhole =>
    exact absurd hrefusal (not_isRefusal_of_whole (quotes_argumentError _) hwhole)
  | name _ hname => cases hname <;> cases hrefusal
  | load _ _ hload => exact absurd hrefusal (Environment.not_isRefusal_of_load hload)
  | depth _ => exact ⟨_, _, _, _, _, rfl, rfl⟩

/-- The error with which a further inclusion is refused inside of these. -/
def refusal (env : Environment) (root : Option String) (opened : List OpenInclusion)
    (name : String) (line : Int) : Error :=
  .runtime ⟨.depth env.maxDepth name, none, templateOf root opened, some line, chainOf root opened⟩

theorem Moment.Follows.tooDeep_eq {line : Int} {i : Inclusion} {name : String} {p : Template}
    {v : Value} {rest : List Task} {error : Option Error}
    (h : Moment.Follows env t opened ⟨.entry line i name p v :: rest, s, error⟩)
    (hplace : Moment.InPlace env t ⟨.entry line i name p v :: rest, s, error⟩) :
    tooDeep env name line s = refusal env t.name opened name line := by
  have htells : Tells t.name opened s := h.account
  have hname : name ≠ "" := by
    obtain ⟨-, -, hreturns⟩ := h
    cases hreturns with
    | task htask _ => exact htask
  have hline : line ≠ 0 := (hplace.standsIn hname).line_ne
  unfold tooDeep refusal
  rw [if_neg hline, htells.template, htells.chain]

theorem Tells.length_chain (h : Tells root opened s) :
    s.chain.length = if (stated? root).isSome then s.depth else s.depth - 1 := by
  rw [h.chain, h.depth]
  unfold chainOf
  cases stated? root with
  | some name => exact length_chainFrom
  | none =>
    cases opened with
    | nil => rfl
    | cons first inner => exact length_chainFrom

end

/--
At every moment of a rendering the session says how many inclusions are open, which template the
innermost of them renders, and by which tags rendering came there. The tasks stand in that template,
and each tag in the partial of the inclusion before it. A further inclusion is refused with just
that, and no rendering ends with a refusal that says anything else.
-/
theorem session_names_open_inclusions (env : Environment) {source : String}
    {name file : Option String} {isPartial : Bool} {t : Template}
    (hparse : env.parse source name file isPartial = .ok t) (bindings : Frame) :
    let start := Moment.start env t bindings
    (∀ n,
      let m := (next env)^[n] start
      let opened := openInclusions env start n
      m.InPlace env t ∧ Stand env t t.name opened ∧ Tells t.name opened m.session ∧
      m.session.chain.length =
        (if (stated? t.name).isSome then m.session.depth else m.session.depth - 1) ∧
      ∀ line i name p v rest s, m = ⟨.entry line i name p v :: rest, s, none⟩ →
        env.maxDepth ≤ s.depth →
        m.next env = ⟨rest, s, some (refusal env t.name opened name line)⟩) ∧
    ∀ error, t.render env bindings = .error error → error.isRefusal →
      ∃ n line i name p v rest s,
        (next env)^[n] start = ⟨.entry line i name p v :: rest, s, none⟩ ∧
        env.maxDepth ≤ s.depth ∧
        error = refusal env t.name (openInclusions env start n) name line := by
  intro start
  have hwritten : AllWritten env.tags t.tokens t.nodes := Environment.written_of_parse hparse
  refine ⟨fun n => ?_, fun error herror hrefusal => ?_⟩
  · obtain ⟨hplace, hfollows⟩ := follows_openInclusions hwritten bindings n
    refine ⟨hplace, hfollows.stand, hfollows.account, hfollows.account.length_chain, ?_⟩
    intro line i name p v rest s hm hfull
    rw [hm] at hplace hfollows ⊢
    rw [next_entry, if_pos hfull, hfollows.tooDeep_eq hplace]
  · obtain ⟨_, ⟨n, rfl⟩, task, rest, s, hm, hfails⟩ := render_eq_error_iff.mp herror
    obtain ⟨hplace, hfollows⟩ := follows_openInclusions hwritten bindings n
    obtain ⟨line, i, name, p, v, rfl, rfl⟩ := exists_of_fails_refusal hfails hrefusal
    rw [hm] at hplace hfollows
    refine ⟨n, line, i, name, p, v, rest, s, hm, ?_, hfollows.tooDeep_eq hplace⟩
    cases hfails with
    | evaluation hevaluates _ => cases hevaluates
    | depth hfull => exact hfull

/-- A page that includes the partial which includes itself. -/
def selfIncludingPage : Template :=
  { selfIncludingPartial with name := some "page", isPartial := false }

theorem parse_selfIncludingPage : selfIncluding.parse selfIncludingPage.source (some "page") none
    false = .ok selfIncludingPage := by
  with_unfolding_all rfl

theorem refused_page_names_three_links : ∃ e line links,
    selfIncludingPage.render selfIncluding [] = .error (.runtime e) ∧
      e.chain = ("page", line) :: links ∧ links.length = 2 := by
  obtain ⟨hmoments, hrefusals⟩ :=
    session_names_open_inclusions selfIncluding parse_selfIncludingPage []
  have hload : selfIncluding.load "self" true = .ok selfIncludingPartial := by
    with_unfolding_all rfl
  have hnested : Nested selfIncluding selfIncludingPartial.nodes ["self", "self", "self", "self"]
      selfIncludingPage.nodes := by
    refine .outer (by decide) hload (.outer (by decide) hload ?_)
    exact .outer (by decide) hload (.outer (by decide) hload .inner)
  have hscalar : Scalar ["self", "self", "self", "self"]
      (Session.start selfIncluding [] selfIncludingPage.name) := fun _ _ => rfl
  obtain ⟨_, _, _, -, -, hrender⟩ := render_of_no_room (by decide) hnested hscalar (by decide)
  obtain ⟨n, line, i, name, p, v, rest, s, hm, hfull, herror⟩ := hrefusals _ hrender rfl
  obtain ⟨-, -, htells, -⟩ := hmoments n
  have hlimit : (s.depth : Int) ≤ 3 := by
    have hdepth := depth_le_limit (by decide) ⟨n, hm⟩
    exact hdepth
  rw [hm] at htells
  have hcount : (openInclusions selfIncluding
      (Moment.start selfIncluding selfIncludingPage []) n).length = 3 := by
    have hdepth : s.depth = _ := htells.depth
    have hfull : (3 : Int) ≤ s.depth := hfull
    omega
  rw [herror] at hrender
  generalize openInclusions selfIncluding _ n = opened at hcount hrender
  cases opened with
  | nil => cases hcount
  | cons first inner =>
    refine ⟨_, _, _, hrender, rfl, ?_⟩
    rw [length_chainFrom]
    exact Nat.succ.inj hcount

end Render

end Stencil
