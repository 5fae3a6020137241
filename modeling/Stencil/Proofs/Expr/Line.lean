import Stencil.Condition.Evaluation
import Stencil.Proofs.Expr.Visit
import Stencil.Proofs.Render.Bond

/-!
# Evaluation on another line

The line on which an expression or a condition is evaluated shows in the errors of its evaluation,
and nowhere else.
-/

namespace Stencil

/-- The error without the line on which something was evaluated or rendered. -/
def Error.withoutLine : Error → Error
  | .undefined e => .undefined { e with line := none }
  | .runtime e => .runtime { e with line := none }
  | e => e

/-- The same session, and errors that differ at most in that line. -/
def Render.Bond.apartFromLine : Render.Bond where
  sessions := Eq
  errors e e' := e.withoutLine = e'.withoutLine

open Render (Bond)

section

variable {s : Setting} (line : Option Int)

/-! ## Values -/

theorem Setting.undefined_line (markup : String) :
    Bond.apartFromLine.Agree Eq (s.undefined markup)
      (Setting.undefined { s with line } markup) := by
  unfold Setting.undefined
  dsimp only
  split
  · exact .error rfl
  · exact .ok rfl

theorem Setting.whole_line {unreadable unreadable' : Error}
    (h : unreadable.withoutLine = unreadable'.withoutLine) (v : Value) :
    Bond.apartFromLine.Agree Eq (s.whole unreadable v)
      (Setting.whole { s with line } unreadable' v) := by
  unfold Setting.whole
  split
  · next hv =>
    rw [hv]
    exact .ok rfl
  · next hv =>
    rw [hv]
    exact .error h
  · next hv =>
    rw [hv]
    exact .error rfl

theorem Setting.boundsError_line (low high : Value) :
    (s.boundsError low high).withoutLine =
      (Setting.boundsError { s with line } low high).withoutLine := by
  unfold Setting.boundsError
  dsimp only
  cases low.literal? s.host <;> cases high.literal? s.host <;> rfl

theorem Setting.readError_line (markup : String) (v key : Value) (f : Value.ReadFault) :
    (s.readError markup v key f).withoutLine =
      (Setting.readError { s with line } markup v key f).withoutLine := by
  cases f with
  | own kind message => rfl
  | badKey | other =>
    unfold Setting.readError
    dsimp only
    cases key.literal? s.host <;> rfl

theorem Setting.read_line (markup : String) (v key : Value) :
    Bond.apartFromLine.Agree Eq (s.read markup v key)
      (Setting.read { s with line } markup v key) := by
  unfold Setting.read
  dsimp only
  split
  · exact .ok rfl
  · exact .error (Setting.readError_line line markup v key _)

/-! ## Expressions -/

namespace Expr

mutual

theorem eval_line (e : Expr) :
    Bond.apartFromLine.Agree Eq (e.eval s) (e.eval { s with line }) := by
  cases e with
  | literal v =>
    rw [eval, eval]
    exact .ok rfl
  | range start stop =>
    rw [eval, eval]
    refine (eval_line start).bind ?_
    rintro low _ rfl
    refine (eval_line stop).bind ?_
    rintro high _ rfl
    have hbounds := Setting.boundsError_line (s := s) line low high
    refine (Setting.whole_line line hbounds low).bind ?_
    rintro first _ rfl
    refine (Setting.whole_line line hbounds high).bind ?_
    rintro last _ rfl
    exact .ok rfl
  | lookup root path markup =>
    rw [eval, eval]
    refine (evalRoot_line root).bind ?_
    rintro start _ rfl
    refine (evalPath_line markup path start).bind ?_
    rintro v _ rfl
    split
    · exact Setting.undefined_line line markup
    · exact .ok rfl

theorem evalRoot_line (root : Key) :
    Bond.apartFromLine.Agree Eq (evalRoot s root) (evalRoot { s with line } root) := by
  cases root with
  | name name =>
    rw [evalRoot, evalRoot]
    exact .ok rfl
  | computed e =>
    rw [evalRoot, evalRoot]
    refine (eval_line e).bind ?_
    rintro v _ rfl
    split <;> exact .ok rfl

theorem evalKey_line (key : Key) :
    Bond.apartFromLine.Agree Eq (evalKey s key) (evalKey { s with line } key) := by
  cases key with
  | name name =>
    rw [evalKey, evalKey]
    exact .ok rfl
  | computed e =>
    rw [evalKey, evalKey]
    exact eval_line e

theorem evalPath_line (markup : String) (path : List Key) (v : Value) :
    Bond.apartFromLine.Agree Eq (evalPath s markup v path)
      (evalPath { s with line } markup v path) := by
  cases path with
  | nil =>
    rw [evalPath, evalPath]
    exact .ok rfl
  | cons key rest =>
    by_cases hmissing : v = .missing
    · rw [hmissing, evalPath_missing, evalPath_missing]
      exact .ok rfl
    · rw [evalPath_cons hmissing, evalPath_cons hmissing]
      refine (evalKey_line key).bind ?_
      rintro k _ rfl
      refine (Setting.read_line line markup v k).bind ?_
      rintro next _ rfl
      exact evalPath_line markup rest next

end

end Expr

/-! ## Conditions -/

theorem Setting.comparisonError_line (op : Operator) (v w : Value) :
    (s.comparisonError op v w).withoutLine =
      (Setting.comparisonError { s with line } op v w).withoutLine := by
  unfold Setting.comparisonError
  dsimp only
  cases v.literal? s.host <;> cases w.literal? s.host <;> rfl

theorem Condition.eval_line (c : Condition) :
    Bond.apartFromLine.Agree Eq (c.eval s) (c.eval { s with line }) := by
  unfold Condition.eval
  refine (c.left.eval_line line).bind ?_
  rintro left _ rfl
  split
  · exact .ok rfl
  · next op e htest =>
    refine (e.eval_line line).bind ?_
    rintro right _ rfl
    dsimp only
    split
    · exact .ok rfl
    · exact .error (Setting.comparisonError_line line op left right)

theorem evalChain_line (first : Condition) (rest : List (Connector × Condition)) :
    Bond.apartFromLine.Agree Eq (evalChain s first rest)
      (evalChain { s with line } first rest) := by
  induction rest generalizing first with
  | nil => exact first.eval_line line
  | cons link rest ih =>
    obtain ⟨connector, next⟩ := link
    rw [evalChain, evalChain]
    refine (ih next).bind ?_
    rintro later _ rfl
    refine (first.eval_line line).bind ?_
    rintro holds _ rfl
    exact .ok rfl

theorem Chain.eval_line (c : Chain) :
    Bond.apartFromLine.Agree Eq (c.eval s) (c.eval { s with line }) :=
  evalChain_line line c.first c.rest

end

end Stencil
