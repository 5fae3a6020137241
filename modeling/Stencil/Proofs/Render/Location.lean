import Stencil.Proofs.Loader.Failure
import Stencil.Proofs.Render.Closure
import Stencil.Proofs.Render.Placement

/-!
# Where errors of expressions stand

An error that an expression causes names the template in which the expression is written, and the
line of its token. There are two exceptions: a condition that comes later in a conditional is
reported on the line of the opening tag, and an attribute of an inclusion in the included template.
-/

namespace Stencil

open Markup

/-! ## Errors that have a place -/

namespace Error

/-- The template and the line that an error of rendering names. -/
def place? : Error → Option (Option String × Option Int)
  | .undefined e => some (e.template, e.line)
  | .runtime e => some (e.template, e.line)
  | _ => none

/-- An expression has no value, or none that serves its purpose. -/
def isOfExpression : Error → Bool
  | .undefined _ => true
  | .runtime e => match e.fault.kind with
    | .evaluation => true
    | .missingName => true
    | .argument => true
    | _ => false
  | _ => false

end Error

/-- Reading an attribute of a host object for the expression raises this template error. -/
inductive Expr.HostRaises (s : Setting) (e : Expr) : Error → Prop
  | mk {root key : Key} {path rest : List Key} {markup : String} {v v' k : Value}
    {kind : ErrorKind} {message : String} : e.Visits s (.lookup root path markup) →
    evalRoot s root = .ok v → Walks s markup v path v' (key :: rest) → evalKey s key = .ok k →
    v'.read s.host k = .error (.own kind message) → HostRaises s e (.stated kind message)

section

variable {s : Setting} {error : Error}

theorem place_of_quotes {shown : List Value} (h : error.Quotes s shown) :
    error.place? = some (s.template, s.line) ∨ ∃ o, error = .overflow o := by
  obtain ⟨fault, expression, rfl, -⟩ | ⟨rfl, -⟩ := h.cases
  · exact .inl rfl
  · exact .inr ⟨_, rfl⟩

theorem place_of_whole {unreadable : Error} {shown : List Value} {v : Value}
    (hquotes : unreadable.Quotes s shown) (h : s.whole unreadable v = .error error) :
    error.place? = some (s.template, s.line) ∨ ∃ o, error = .overflow o := by
  rcases whole_of_error h with ⟨-, rfl⟩ | ⟨-, rfl⟩
  · exact place_of_quotes hquotes
  · exact .inr ⟨_, rfl⟩

theorem Expr.place_of_eval {e : Expr} (h : e.eval s = .error error) :
    error.place? = some (s.template, s.line) ∨ (∃ o, error = .overflow o) ∨
      e.HostRaises s error := by
  obtain ⟨e', hvisits, hfails⟩ := Expr.eval_eq_error_iff.mp h
  cases hfails with
  | low _ _ hwhole => exact (place_of_whole (quotes_boundsError _ _) hwhole).imp_right .inl
  | high _ _ _ hwhole => exact (place_of_whole (quotes_boundsError _ _) hwhole).imp_right .inl
  | @reading root key path rest markup v v' k fault hroot hwalks _ hkey hread =>
    cases fault with
    | own kind message => exact .inr (.inr ⟨hvisits, hroot, hwalks, hkey, hread⟩)
    | badKey typeName =>
      exact (place_of_quotes (quotes_readError (by rintro _ _ ⟨⟩))).imp_right .inl
    | other message =>
      exact (place_of_quotes (quotes_readError (by rintro _ _ ⟨⟩))).imp_right .inl
  | undefined => exact .inl rfl

end

/-! ## Errors of loading -/

section

variable {name : String} {error : Error}

theorem Environment.not_isOfExpression_load {env : Environment} {isPartial : Bool}
    (h : env.load name isPartial = .error error) : ¬ error.isOfExpression := by
  rcases except_bind_eq_error.mp h with hsource | ⟨source, -, hparse⟩
  · have hloading := isOfLoading_getSource hsource
    cases error with
    | notFound e => nofun
    | file f => nofun
    | _ => cases hloading
  · unfold Environment.parse at hparse
    split at hparse <;> (cases hparse; try nofun)

end

namespace Render

open Session Moment

/-! ## Causes -/

/-- The task fails because of this expression, which it evaluates for a tag on this line. -/
inductive Task.Blames (env : Environment) (s : Session) : Task → Int → Expr → Error → Prop
  | value {task : Task} {line : Int} {e : Expr} {error : Error} : task.Evaluates env s line e →
    e.eval (s.setting env (some line)) = .error error → Blames env s task line e error
  | comparison {line : Nat} {isNegated : Bool} {chain : Chain} {body : List Node}
    {rest : List (Chain × List Node)} {otherwise : List Node} {condition : Condition}
    {error : Error} : chain.Reaches (s.setting env (some line)) condition →
    condition.Miscompares (s.setting env (some line)) error →
    Blames env s (.branches line isNegated ((chain, body) :: rest) otherwise) line condition.left
      error
  | argument {line : Nat} {head : LoopHead} {body otherwise : List Node} {e : Expr} {v : Value}
    {error : Error} : ReachesArgument env s line head e →
    e.eval (s.setting env (some line)) = .ok v → v ≠ .nil →
    (s.setting env (some line)).whole ((s.setting env (some line)).argumentError v) v =
      .error error →
    Blames env s (.node (.loop line head body otherwise)) line e error
  | name {line : Nat} {i : Inclusion} {v : Value} {error : Error} :
    i.template.eval (s.setting env (some line)) = .ok v →
    Misnames (s.setting env (some line)) i v error →
    Blames env s (.node (.inclusion line i)) line i.template error

section

variable {env : Environment} {s : Session} {task : Task} {line : Int} {e : Expr} {error : Error}

theorem exists_blames_of_fails (h : task.Fails env s error) (hkind : error.isOfExpression) :
    ∃ line e, task.Blames env s line e error := by
  cases h with
  | evaluation hevaluates heval => exact ⟨_, _, .value hevaluates heval⟩
  | comparison hreaches hcompares => exact ⟨_, _, .comparison hreaches hcompares⟩
  | argument hreaches hv hnil hwhole => exact ⟨_, _, .argument hreaches hv hnil hwhole⟩
  | name hv hname => exact ⟨_, _, .name hv hname⟩
  | load _ _ hload => exact absurd hkind (Environment.not_isOfExpression_load hload)
  | items _ _ => cases hkind
  | output _ _ => cases hkind
  | depth _ => cases hkind

/-- The error stands in the template that is being rendered, on the line of the tag. -/
theorem place_of_blames (h : task.Blames env s line e error) (hkind : error.isOfExpression) :
    error.place? = some (s.template, some line) ∨
      e.HostRaises (s.setting env (some line)) error := by
  cases h with
  | value hevaluates heval =>
    rcases Expr.place_of_eval heval with hplace | ⟨o, rfl⟩ | hraises
    · exact .inl hplace
    · cases hkind
    · exact .inr hraises
  | comparison hreaches hcompares =>
    cases hcompares
    obtain hplace | ⟨o, ho⟩ := place_of_quotes (quotes_comparisonError (s := s.setting env _) _ _ _)
    · exact .inl hplace
    · rw [ho] at hkind
      cases hkind
  | argument hreaches hv hnil hwhole =>
    rcases place_of_whole (quotes_argumentError _) hwhole with hplace | ⟨o, rfl⟩
    · exact .inl hplace
    · cases hkind
  | name hv hname => cases hname <;> exact .inl rfl

end

/-! ## Causes in tokens -/

section

variable {env : Environment} {t T : Template} {name : Option String} {s : Session}

/--
The template and the line that are reported for an expression in a token: those of the token, but
for the two exceptions.
-/
inductive Reports (env : Environment) (T : Template) (tok : Token) :
    Position → Option String → Int → Prop
  | main : Reports env T tok .main T.name tok.line
  | laterCondition {u : Token} {c : Chain} : [u, tok].Sublist T.tokens →
    u.OpensConditional env.tags c → Reports env T tok .laterCondition T.name u.line
  | attribute {p : Template} {name : String} : env.load name true = .ok p →
    Reports env T tok .attribute (some name) tok.line

variable {task : Task} {line : Int} {e : Expr} {error : Error}

theorem mem_exprs_of_evaluates {setting : Setting} {condition : Condition}
    (h : condition.Evaluates setting e) : e ∈ condition.exprs := by
  unfold Condition.exprs
  cases h with
  | left => exact List.mem_cons_self
  | right htest _ => simp [htest]

theorem mem_chain_exprs {setting : Setting} {c : Chain} {condition : Condition}
    (hreaches : c.Reaches setting condition) (he : e ∈ condition.exprs) : e ∈ c.exprs := by
  obtain ⟨before, later, hsplit, -⟩ := hreaches
  refine List.mem_flatMap.mpr ⟨condition, ?_, he⟩
  rw [hsplit]
  exact List.mem_append_right before List.mem_cons_self

theorem mem_head_exprs {line : Int} {head : LoopHead} (h : ReachesArgument env s line head e) :
    e ∈ head.exprs := by
  unfold LoopHead.exprs
  cases h with
  | offset _ _ he => simp [he]
  | limit _ _ _ he => simp [he]

theorem exists_reports_of_condition {line : Nat} {c : Chain}
    (hc : c.Written env.tags T.tokens line) (he : e ∈ c.exprs) :
    ∃ tok ∈ T.tokens, ∃ position, tok.Writes env.tags position e ∧
      Reports env T tok position T.name line := by
  cases hc with
  | opening htok hopens => exact ⟨_, htok, .main, .condition hopens he, .main⟩
  | later hbefore hopens htag hparse =>
    refine ⟨_, ?_, .laterCondition, .laterCondition htag hparse he, .laterCondition hbefore hopens⟩
    exact hbefore.subset (List.mem_cons_of_mem _ List.mem_cons_self)

theorem exists_reports_of_evaluates (hof : task.IsOf env T) (h : task.Evaluates env s line e) :
    ∃ tok ∈ T.tokens, ∃ position, tok.Writes env.tags position e ∧
      Reports env T tok position T.name line := by
  cases h with
  | output =>
    cases hof with
    | output htok hkind hparse => exact ⟨_, htok, .main, .output hkind hparse, .main⟩
  | assign =>
    cases hof with
    | assign htok hstarts => exact ⟨_, htok, .main, .assign hstarts, .main⟩
  | condition hreaches hevaluates =>
    obtain ⟨hchain, -⟩ := hof.1 _ List.mem_cons_self
    have he := mem_chain_exprs hreaches (mem_exprs_of_evaluates hevaluates)
    exact exists_reports_of_condition hchain he
  | collection =>
    cases hof with
    | loop htok hstarts hparse _ _ =>
      exact ⟨_, htok, .main, .loop hstarts hparse List.mem_cons_self, .main⟩
  | argument hreaches =>
    cases hof with
    | loop htok hstarts hparse _ _ =>
      exact ⟨_, htok, .main, .loop hstarts hparse (mem_head_exprs hreaches), .main⟩
  | name =>
    cases hof with
    | inclusion htok hstarts =>
      exact ⟨_, htok, .main, .inclusion hstarts List.mem_cons_self, .main⟩
  | bound _ _ hbound =>
    cases hof with
    | inclusion htok hstarts =>
      exact ⟨_, htok, .main, .inclusion hstarts (by simp [Inclusion.exprs, hbound]), .main⟩
  | «attribute» => cases hof

theorem exists_reports_of_blames (hbelongs : task.Belongs env t name)
    (h : task.Blames env s line e error) :
    ∃ T, Known env t T ∧ ∃ tok ∈ T.tokens, ∃ position, tok.Writes env.tags position e ∧
      Reports env T tok position name line := by
  cases hbelongs with
  | @inside T _ hknown hof =>
    refine ⟨T, hknown, ?_⟩
    cases h with
    | value hevaluates _ => exact exists_reports_of_evaluates hof hevaluates
    | comparison hreaches _ =>
      obtain ⟨hchain, -⟩ := hof.1 _ List.mem_cons_self
      exact exists_reports_of_condition hchain (mem_chain_exprs hreaches List.mem_cons_self)
    | argument hreaches _ _ _ => exact exists_reports_of_evaluates hof (.argument hreaches)
    | name _ _ => exact exists_reports_of_evaluates (s := s) hof .name
  | @attributes T p tok i name attributes hknown htok hstarts hload hsub =>
    refine ⟨T, hknown, tok, htok, .attribute, ?_⟩
    cases h with
    | value hevaluates _ =>
      cases hevaluates with
      | «attribute» => exact ⟨.attribute hstarts (hsub List.mem_cons_self), .attribute hload⟩

/-! ## Whole renderings -/

/--
Rendering comes to a task that fails with this error because of an expression in this token of this
template; `s` is the session then, and `line` the line of the tag that asks for the value.
-/
structure Culprit (env : Environment) (t : Template) (bindings : Frame) (error : Error)
    (T : Template) (tok : Token) (position : Position) (e : Expr) (s : Session) (line : Int) :
    Prop where
  known : Known env t T
  token : tok ∈ T.tokens
  writes : tok.Writes env.tags position e
  blamed : ∃ task rest, Leads env (Moment.start env t bindings) ⟨task :: rest, s, none⟩ ∧
    task.Blames env s line e error

end

/--
An error of an expression is caused by one that is written in a token of the template, or of one
that the loader gives. It names that template and the line of that token, unless the expression is
a condition that comes later in a conditional, in which case the line is that of the opening tag
before it; or an attribute of an inclusion, in which case the name is that of the included partial.
Errors that an attribute of a host object raises itself are passed on as they are.
-/
theorem error_of_expression_is_located (env : Environment) {source : String}
    {name file : Option String} {isPartial : Bool} {t : Template}
    (hparse : env.parse source name file isPartial = .ok t) (bindings : Frame) {error : Error}
    (hrender : t.render env bindings = .error error) (hkind : error.isOfExpression) :
    ∃ T tok position e s line, Culprit env t bindings error T tok position e s line ∧
      (e.HostRaises (s.setting env (some line)) error ∨
        ∃ place, Reports env T tok position place line ∧
          error.place? = some (place, some line)) := by
  obtain ⟨m, hm, task, rest, s, rfl, hfails⟩ := render_eq_error_iff.mp hrender
  obtain ⟨line, e, hblames⟩ := exists_blames_of_fails hfails hkind
  have hplace := (inPlace_start (Environment.written_of_parse hparse)).leads hm
  have hbelongs : task.Belongs env t s.template := by
    cases hplace.tasks with
    | task htask _ => exact htask
    | leave _ => cases hblames with
      | value hevaluates _ => cases hevaluates
  obtain ⟨T, hknown, tok, htok, position, hwrites, hreports⟩ :=
    exists_reports_of_blames hbelongs hblames
  refine ⟨T, tok, position, e, s, line, ⟨hknown, htok, hwrites, task, rest, hm, hblames⟩, ?_⟩
  rcases place_of_blames hblames hkind with hplace | hraises
  · exact .inr ⟨s.template, hreports, hplace⟩
  · exact .inl hraises

/-! ## Variables that nothing binds -/

def strictBare : Environment := { bare with strict := true }

def unboundX : Expr := .lookup (.name "x") [] "x"

/-- A template that writes a variable on its second line. -/
def outputPage : Template where
  nodes := [.text 1 "\n", .output 2 "x" unboundX]
  name := some "page"
  file := none
  isPartial := false
  source := "\n\x7b\x7b x \x7d\x7d"

theorem parse_outputPage :
    strictBare.parse outputPage.source (some "page") none false = .ok outputPage := by
  with_unfolding_all rfl

theorem render_outputPage : outputPage.render strictBare [] =
    .error (.undefined ⟨"x", some "page", some 2, []⟩) := rfl

theorem unbound_output_is_located :
    let error : Error := .undefined ⟨"x", some "page", some 2, []⟩
    strictBare.parse outputPage.source (some "page") none false = .ok outputPage ∧
    outputPage.render strictBare [] = .error error ∧ error.isOfExpression ∧
    ∃ T tok position e s line, Culprit strictBare outputPage [] error T tok position e s line ∧
      (e.HostRaises (s.setting strictBare (some line)) error ∨
        ∃ place, Reports strictBare T tok position place line ∧
          error.place? = some (place, some line)) :=
  ⟨parse_outputPage, render_outputPage, rfl,
    error_of_expression_is_located strictBare parse_outputPage [] render_outputPage rfl⟩

/-- A template whose condition on the second line needs a variable, that on the first none. -/
def laterPage : Template where
  nodes := [.conditional 1 false
    [(⟨⟨.literal (.bool false), none⟩, []⟩, [.text 1 "\n"]), (⟨⟨unboundX, none⟩, []⟩, [])] []]
  name := some "page"
  file := none
  isPartial := false
  source := "\x7b% if false %\x7d\n\x7b% elsif x %\x7d\x7b% endif %\x7d"

def laterPageOpening : Token := ⟨.tag, "\x7b% if false %\x7d", 1⟩

theorem tokens_laterPage : laterPage.tokens = [laterPageOpening, ⟨.text, "\n", 1⟩,
    ⟨.tag, "\x7b% elsif x %\x7d", 2⟩, ⟨.tag, "\x7b% endif %\x7d", 2⟩] := by
  with_unfolding_all rfl

theorem starts_laterPageOpening {start : TagStart}
    (h : laterPageOpening.Starts strictBare.tags start) :
    start = .block (.branches false [] ⟨⟨.literal (.bool false), none⟩, []⟩) := by
  obtain @⟨name, markup, kind, htag, hkind, hstart⟩ := h
  have hsplit : splitTag? laterPageOpening.markup = some ("if", "false".toList) := by
    with_unfolding_all rfl
  have hchain : Chain.parse "false".toList = .ok ⟨⟨.literal (.bool false), none⟩, []⟩ := by
    with_unfolding_all rfl
  cases hsplit.symm.trans htag.split
  cases hkind
  obtain ⟨c, hc, hblock⟩ := exists_of_bind_eq_ok hstart
  cases hchain.symm.trans hc
  cases hblock
  rfl

theorem literal_of_writes_laterPageOpening {position : Position} {e : Expr}
    (h : laterPageOpening.Writes strictBare.tags position e) : ∃ v, e = .literal v := by
  cases h with
  | output hkind _ => cases hkind
  | assign hstarts => cases starts_laterPageOpening hstarts
  | condition hopens he =>
    obtain ⟨isNegated, hstarts⟩ := hopens
    cases starts_laterPageOpening hstarts
    exact ⟨_, List.mem_singleton.mp he⟩
  | laterCondition htag _ _ =>
    have hsplit : splitTag? laterPageOpening.markup = some ("if", "false".toList) := by
      with_unfolding_all rfl
    have hname := congrArg (Option.map Prod.fst) (hsplit.symm.trans htag.split)
    simp at hname
  | loop hstarts _ _ => cases starts_laterPageOpening hstarts
  | inclusion hstarts _ => cases starts_laterPageOpening hstarts
  | «attribute» hstarts _ => cases starts_laterPageOpening hstarts

theorem not_writes_of_text {tags : TagTable} {tok : Token} (hkind : tok.kind = .text)
    {position : Position} {e : Expr} : ¬ tok.Writes tags position e := by
  have hnot : ∀ start, ¬ tok.Starts tags start := by
    rintro start ⟨htag, -, -⟩
    cases hkind.symm.trans htag.kind
  intro h
  cases h with
  | output houtput _ => cases hkind.symm.trans houtput
  | assign hstarts => exact hnot _ hstarts
  | condition hopens _ => exact hnot _ hopens.choose_spec
  | laterCondition htag _ _ => cases hkind.symm.trans htag.kind
  | loop hstarts _ _ => exact hnot _ hstarts
  | inclusion hstarts _ => exact hnot _ hstarts
  | «attribute» hstarts _ => exact hnot _ hstarts

theorem not_quotes_undefined {s : Setting} {shown : List Value} {u : UndefinedError} :
    ¬ (Error.undefined u).Quotes s shown := by
  intro h
  obtain ⟨fault, expression, heq, -⟩ | ⟨heq, -⟩ := h.cases <;> cases heq

theorem eval_of_blames_undefined {env : Environment} {s : Session} {task : Task} {line : Int}
    {e : Expr} {u : UndefinedError} (h : task.Blames env s line e (.undefined u)) :
    e.eval (s.setting env (some line)) = .error (.undefined u) := by
  cases h with
  | value _ heval => exact heval
  | comparison _ hcompares =>
    generalize herror : Error.undefined u = error at hcompares
    cases hcompares
    exact absurd (herror ▸ quotes_comparisonError _ _ _) not_quotes_undefined
  | argument _ _ _ hwhole =>
    obtain ⟨-, herror⟩ | ⟨-, herror⟩ := whole_of_error hwhole
    · exact absurd (herror ▸ quotes_argumentError _) not_quotes_undefined
    · cases herror
  | name _ hname => cases hname

/--
A variable in a later condition is reported on the line of the opening tag, though no token on that
line writes an expression that could be to blame.
-/
theorem later_condition_is_misplaced :
    strictBare.parse laterPage.source (some "page") none false = .ok laterPage ∧
    ∃ error, laterPage.render strictBare [] = .error error ∧ error.isOfExpression ∧
      ∀ T tok position e s line, Culprit strictBare laterPage [] error T tok position e s line →
        error.place? ≠ some (T.name, some (tok.line : Int)) := by
  refine ⟨by with_unfolding_all rfl, .undefined ⟨"x", some "page", some 1, []⟩, rfl, rfl, ?_⟩
  intro T tok position e s line hculprit hplace
  obtain ⟨task, rest, -, hblames⟩ := hculprit.blamed
  have hline : tok.line = 1 := by
    have hpair := congrArg Prod.snd (Option.some.inj hplace)
    exact (Int.ofNat.inj (Option.some.inj hpair)).symm
  have htok := hculprit.token
  obtain rfl | ⟨name, hload⟩ := hculprit.known
  · rw [tokens_laterPage] at htok
    simp only [List.mem_cons, List.not_mem_nil, or_false] at htok
    rcases htok with rfl | rfl | rfl | rfl
    · obtain ⟨v, rfl⟩ := literal_of_writes_laterPageOpening hculprit.writes
      cases eval_of_blames_undefined hblames
    · exact not_writes_of_text rfl hculprit.writes
    · cases hline
    · cases hline
  · cases hload

end Render

end Stencil
