import Stencil.Proofs.Render.Course
import Stencil.Proofs.Value.Unwritable

/-!
# The errors of renderings

A rendering that fails does so with a template error, or because something is too large: a number
that is infinite, a list with more items than any, or a whole number with too many digits. What
cannot be converted, compared or read is an error of evaluation, if the values that its message
shows have a text.
-/

namespace Stencil

/-! ## Whole numbers -/

/-- An infinite number, or an object that is converted to one. -/
inductive Value.IsInfinite (host : Host) : Value → Prop
  | float {negative : Bool} : IsInfinite host (.float (.infinite negative))
  | object {id : Nat} {className : String} {attributes : List (String × Attribute)} :
    host.whole? (.object id className attributes) = .error .infinite →
    IsInfinite host (.object id className attributes)

theorem Value.IsInfinite.ne_nil {host : Host} {v : Value} (h : v.IsInfinite host) : v ≠ .nil := by
  cases h <;> nofun

theorem whole?_infinite_iff {host : Host} {v : Value} :
    v.whole? host = .error .infinite ↔ v.IsInfinite host := by
  constructor
  · intro h
    cases v with
    | float x =>
      cases x with
      | infinite negative => exact .float
      | _ => cases h
    | text t =>
      unfold Value.whole? at h
      cases hread : readInt? t.toList <;> simp [hread] at h
    | object id className attributes => exact .object h
    | _ => cases h
  · intro h
    cases h with
    | float => rfl
    | object h => exact h

section

variable {s : Setting} {error unreadable : Error}

theorem whole_of_ok {v : Value} {n : Int} (h : v.whole? s.host = .ok n) :
    s.whole unreadable v = .ok n := by
  unfold Setting.whole
  rw [h]

theorem whole_of_error {v : Value} (h : s.whole unreadable v = .error error) :
    (v.whole? s.host = .error .unreadable ∧ error = unreadable) ∨
      (v.IsInfinite s.host ∧ error = .overflow .infinite) := by
  unfold Setting.whole at h
  cases hv : v.whole? s.host with
  | ok n =>
    rw [hv] at h
    cases h
  | error e =>
    rw [hv] at h
    cases e with
    | unreadable =>
      cases h
      exact .inl ⟨rfl, rfl⟩
    | infinite =>
      cases h
      exact .inr ⟨whole?_infinite_iff.mp hv, rfl⟩

/-! ## Errors that show values -/

/-- An error of evaluation if these values can be shown, and too many digits if they cannot. -/
def Error.Quotes (s : Setting) (shown : List Value) (error : Error) : Prop :=
  ((∀ v ∈ shown, ¬ v.IsUnwritable s.host) →
    ∃ fault expression, error = s.fault fault expression ∧ fault.kind = .evaluation) ∧
  ((∃ v ∈ shown, v.IsUnwritable s.host) → error = .overflow .unwritable)

theorem Error.Quotes.cases {shown : List Value} (h : error.Quotes s shown) :
    (∃ fault expression, error = s.fault fault expression ∧ fault.kind = .evaluation) ∨
      (error = .overflow .unwritable ∧ ∃ v ∈ shown, v.IsUnwritable s.host) := by
  by_cases hshown : ∃ v ∈ shown, v.IsUnwritable s.host
  · exact .inr ⟨h.2 hshown, hshown⟩
  · exact .inl (h.1 fun v hv hlong => hshown ⟨v, hv, hlong⟩)

theorem quotes_one {v : Value} {f : String → RuntimeFault} {expression : Option String}
    (hkind : ∀ text, (f text).kind = .evaluation) :
    (Error.quoting ((v.literal? s.host).map fun text => s.fault (f text) expression)).Quotes
      s [v] := by
  have hlong : v.literal? s.host = none ↔ _ := Value.literal?_eq_none_iff v
  cases htext : v.literal? s.host with
  | none =>
    refine ⟨fun h => ?_, fun _ => rfl⟩
    exact absurd (hlong.mp htext) (h v List.mem_cons_self)
  | some text =>
    refine ⟨fun _ => ⟨f text, expression, rfl, hkind text⟩, ?_⟩
    rintro ⟨w, hw, h⟩
    rw [List.mem_singleton.mp hw, ← hlong, htext] at h
    cases h

theorem quotes_two {v w : Value} {f : String → String → RuntimeFault}
    {expression : String → String → Option String} (hkind : ∀ l r, (f l r).kind = .evaluation) :
    (Error.quoting do
      let l ← v.literal? s.host
      let r ← w.literal? s.host
      return s.fault (f l r) (expression l r)).Quotes s [v, w] := by
  have hv : v.literal? s.host = none ↔ _ := Value.literal?_eq_none_iff v
  have hw : w.literal? s.host = none ↔ _ := Value.literal?_eq_none_iff w
  cases hl : v.literal? s.host with
  | none =>
    refine ⟨fun h => ?_, fun _ => rfl⟩
    exact absurd (hv.mp hl) (h v List.mem_cons_self)
  | some l =>
    cases hr : w.literal? s.host with
    | none =>
      refine ⟨fun h => ?_, fun _ => rfl⟩
      exact absurd (hw.mp hr) (h w (by simp))
    | some r =>
      refine ⟨fun _ => ⟨f l r, expression l r, rfl, hkind l r⟩, ?_⟩
      simp only [List.mem_cons, List.not_mem_nil, or_false, exists_eq_or_imp, exists_eq_left]
      rintro (h | h)
      · cases hl.symm.trans (hv.mpr h)
      · cases hr.symm.trans (hw.mpr h)

theorem quotes_boundsError (low high : Value) : (s.boundsError low high).Quotes s [low, high] :=
  quotes_two fun _ _ => rfl

theorem quotes_argumentError (v : Value) : (s.argumentError v).Quotes s [v] :=
  quotes_one fun _ => rfl

theorem quotes_comparisonError (op : Operator) (v w : Value) :
    (s.comparisonError op v w).Quotes s [v, w] := quotes_two fun _ _ => rfl

theorem quotes_readError {markup : String} {v k : Value} {fault : Value.ReadFault}
    (h : ∀ kind message, fault ≠ .own kind message) :
    (s.readError markup v k fault).Quotes s [k] := by
  cases fault with
  | own kind message => exact absurd rfl (h kind message)
  | _ => exact quotes_one fun _ => rfl

/-! ## Expressions -/

/-- A range one bound of which is infinite; the first is converted before the second. -/
def Expr.HasInfiniteBound (s : Setting) : Expr → Prop
  | .range start stop => ∃ low high, start.eval s = .ok low ∧ stop.eval s = .ok high ∧
    (low.IsInfinite s.host ∨ (∃ n, low.whole? s.host = .ok n) ∧ high.IsInfinite s.host)
  | _ => False

/-- What an expression cannot convert or read, though its parts have values. -/
inductive Expr.CannotEvaluate (s : Setting) : Expr → List Value → Prop
  | bound {start stop : Expr} {low high : Value} : start.eval s = .ok low →
    stop.eval s = .ok high →
    low.whole? s.host = .error .unreadable ∨
      ((∃ n, low.whole? s.host = .ok n) ∧ high.whole? s.host = .error .unreadable) →
    CannotEvaluate s (.range start stop) [low, high]
  | reading {root key : Key} {path rest : List Key} {markup : String} {v v' k : Value}
    {fault : Value.ReadFault} : evalRoot s root = .ok v → Walks s markup v path v' (key :: rest) →
    v' ≠ .missing → evalKey s key = .ok k → v'.read s.host k = .error fault →
    (∀ kind message, fault ≠ .own kind message) →
    CannotEvaluate s (.lookup root path markup) [k]

/-- A range with more elements than a list may have, or than any memory holds. -/
inductive Value.TooMany : Value → Overflow → Prop
  | tooLong {start stop : Int} : maxItems ≤ rangeLength start stop →
    TooMany (.range start stop) .tooLong
  | tooLarge {start stop : Int} : rangeLength start stop < maxItems →
    maxItems ≤ itemBytes * rangeLength start stop → TooMany (.range start stop) .tooLarge

end

namespace Render

open Markup Session Moment

/-! ## Tasks that overflow -/

/-- What a task cannot convert, compare or read, and the values that the message shows. -/
inductive Task.CannotEvaluate (env : Environment) (s : Session) : Task → List Value → Prop
  | expression {task : Task} {line : Int} {e e' : Expr} {shown : List Value} :
    task.Evaluates env s line e → e.Visits (s.setting env (some line)) e' →
    e'.CannotEvaluate (s.setting env (some line)) shown → CannotEvaluate env s task shown
  | argument {line : Nat} {head : LoopHead} {body otherwise : List Node} {e : Expr} {v : Value} :
    ReachesArgument env s line head e → e.eval (s.setting env (some line)) = .ok v → v ≠ .nil →
    v.whole? env.host = .error .unreadable →
    CannotEvaluate env s (.node (.loop line head body otherwise)) [v]
  | comparison {line : Nat} {isNegated : Bool} {chain : Chain} {body : List Node}
    {rest : List (Chain × List Node)} {otherwise : List Node} {condition : Condition}
    {op : Operator} {e : Expr} {v w : Value} :
    chain.Reaches (s.setting env (some line)) condition → condition.test = some (op, e) →
    condition.left.eval (s.setting env (some line)) = .ok v →
    e.eval (s.setting env (some line)) = .ok w → op.apply? env.host v w = none →
    CannotEvaluate env s (.branches line isNegated ((chain, body) :: rest) otherwise) [v, w]

/-- What is too large for a task. -/
inductive Task.Overflows (env : Environment) (s : Session) : Task → Overflow → Prop
  | bound {task : Task} {line : Int} {e e' : Expr} : task.Evaluates env s line e →
    e.Visits (s.setting env (some line)) e' → e'.HasInfiniteBound (s.setting env (some line)) →
    Overflows env s task .infinite
  | argument {line : Nat} {head : LoopHead} {body otherwise : List Node} {e : Expr} {v : Value} :
    ReachesArgument env s line head e → e.eval (s.setting env (some line)) = .ok v →
    v.IsInfinite env.host → Overflows env s (.node (.loop line head body otherwise)) .infinite
  | items {line : Nat} {head : LoopHead} {body otherwise : List Node} {v : Value} {o : Overflow} :
    head.collection.eval (s.setting env (some line)) = .ok v → v.TooMany o →
    Overflows env s (.node (.loop line head body otherwise)) o
  | output {line : Nat} {markup : String} {e : Expr} {v : Value} :
    e.eval (s.setting env (some line)) = .ok v → v.HasNoOutput env.host →
    Overflows env s (.node (.output line markup e)) .unwritable
  | message {task : Task} {shown : List Value} {v : Value} : task.CannotEvaluate env s shown →
    v ∈ shown → v.IsUnwritable env.host → Overflows env s task .unwritable
  | load {line : Nat} {i : Inclusion} {name : String} {source : Source} {o : Overflow} :
    partialName env line i s = .ok name s → s.partials.lookup name = none →
    env.getSource name = .ok source →
    Template.parse env.tags source.text (some name) source.file true = .error (.overflow o) →
    Overflows env s (.node (.inclusion line i)) o

section

variable {env : Environment} {s : Session} {task : Task} {error : Error} {o : Overflow}

end

/-! ## Renderings -/

def Moment.Overflows (env : Environment) (m : Moment) (o : Overflow) : Prop :=
  ∃ task rest s, m = ⟨task :: rest, s, none⟩ ∧ task.Overflows env s o

def Moment.CannotEvaluate (env : Environment) (m : Moment) (shown : List Value) : Prop :=
  ∃ task rest s, m = ⟨task :: rest, s, none⟩ ∧ task.CannotEvaluate env s shown

section

variable {env : Environment} {t : Template} {bindings : Frame}

end

def bare : Environment where
  loader := none
  strict := false
  maxDepth := 50
  globals := []
  tags := TagTable.default
  host := .plain

end Render

end Stencil
