import Stencil.Condition.Evaluation
import Stencil.Proofs.Expr.Visit

/-!
# Conditions that fail

A chain is evaluated from its last condition to the first, and fails with the first one that fails
on the way.
-/

namespace Stencil

variable {s : Setting} {error : Error}

/-! ## Conditions -/

namespace Condition

/-- The expressions whose values a condition asks for. -/
inductive Evaluates (s : Setting) (c : Condition) : Expr → Prop
  | left : Evaluates s c c.left
  | right {op : Operator} {e : Expr} {v : Value} : c.test = some (op, e) → c.left.eval s = .ok v →
    Evaluates s c e

/-- Both sides have values, but not such that can be compared. -/
inductive Miscompares (s : Setting) (c : Condition) : Error → Prop
  | mk {op : Operator} {e : Expr} {v w : Value} : c.test = some (op, e) → c.left.eval s = .ok v →
    e.eval s = .ok w → op.apply? s.host v w = none → Miscompares s c (s.comparisonError op v w)

theorem eval_plain {left : Expr} :
    eval s ⟨left, none⟩ = left.eval s >>= fun v => .ok v.isTruthy := rfl

theorem eval_test {left e : Expr} {op : Operator} :
    eval s ⟨left, some (op, e)⟩ = left.eval s >>= fun v => e.eval s >>= fun w =>
      match op.apply? s.host v w with
      | some holds => .ok holds
      | none => .error (s.comparisonError op v w) := rfl

theorem eval_eq_error_iff {c : Condition} :
    c.eval s = .error error ↔
      (∃ e, c.Evaluates s e ∧ e.eval s = .error error) ∨ c.Miscompares s error := by
  obtain ⟨left, test⟩ := c
  constructor
  · intro h
    cases test with
    | none =>
      rw [eval_plain] at h
      obtain hleft | ⟨v, -, h⟩ := except_bind_eq_error.mp h
      · exact .inl ⟨left, .left, hleft⟩
      · cases h
    | some test =>
      obtain ⟨op, e⟩ := test
      rw [eval_test] at h
      obtain hleft | ⟨v, hleft, h⟩ := except_bind_eq_error.mp h
      · exact .inl ⟨left, .left, hleft⟩
      obtain hright | ⟨w, hright, h⟩ := except_bind_eq_error.mp h
      · exact .inl ⟨e, .right rfl hleft, hright⟩
      cases happly : op.apply? s.host v w with
      | some holds =>
        rw [happly] at h
        cases h
      | none =>
        rw [happly] at h
        cases h
        exact .inr ⟨rfl, hleft, hright, happly⟩
  · rintro (⟨e, hasks, he⟩ | h)
    · cases hasks with
      | left => cases test <;> exact except_bind_of_error he
      | @right op e v htest hleft =>
        obtain rfl : test = some (op, e) := htest
        rw [eval_test, except_bind_of_ok hleft]
        exact except_bind_of_error he
    · obtain @⟨op, e, v, w, htest, hleft, hright, happly⟩ := h
      obtain rfl : test = some (op, e) := htest
      rw [eval_test, except_bind_of_ok hleft, except_bind_of_ok hright, happly]

end Condition

/-! ## Chains -/

/-- All conditions after this one have been evaluated, and this one comes next. -/
def Chain.Reaches (s : Setting) (c : Chain) (condition : Condition) : Prop :=
  ∃ before later, c.conditions = before ++ condition :: later ∧
    ∀ d ∈ later, ∃ holds, d.eval s = .ok holds

theorem evalChain_cons (first next : Condition) (connector : Connector)
    (rest : List (Connector × Condition)) :
    evalChain s first ((connector, next) :: rest) =
      evalChain s next rest >>= fun later => first.eval s >>= fun holds =>
        .ok (connector.apply holds later) := rfl

theorem evalChain_of_ok {rest : List (Connector × Condition)} {first : Condition}
    (h : ∀ d ∈ first :: rest.map (·.2), ∃ holds, d.eval s = .ok holds) :
    ∃ holds, evalChain s first rest = .ok holds := by
  induction rest generalizing first with
  | nil => exact h first List.mem_cons_self
  | cons second rest ih =>
    obtain ⟨connector, next⟩ := second
    obtain ⟨holds, hfirst⟩ := h first List.mem_cons_self
    obtain ⟨later, hrest⟩ := ih fun d hd => h d (List.mem_cons_of_mem _ hd)
    rw [evalChain_cons, except_bind_of_ok hrest, except_bind_of_ok hfirst]
    exact ⟨_, rfl⟩

theorem ok_of_evalChain {rest : List (Connector × Condition)} {first : Condition} {holds : Bool}
    (h : evalChain s first rest = .ok holds) :
    ∀ d ∈ first :: rest.map (·.2), ∃ holds, d.eval s = .ok holds := by
  induction rest generalizing first holds with
  | nil =>
    intro d hd
    rw [List.mem_singleton.mp hd]
    exact ⟨holds, h⟩
  | cons second rest ih =>
    obtain ⟨connector, next⟩ := second
    rw [evalChain_cons] at h
    cases hrest : evalChain s next rest with
    | error e =>
      rw [except_bind_of_error hrest] at h
      cases h
    | ok later =>
      rw [except_bind_of_ok hrest] at h
      cases hfirst : first.eval s with
      | error e =>
        rw [except_bind_of_error hfirst] at h
        cases h
      | ok holds =>
        intro d hd
        rcases List.mem_cons.mp hd with rfl | hd
        · exact ⟨holds, hfirst⟩
        · exact ih hrest d hd

theorem evalChain_eq_error_iff {rest : List (Connector × Condition)} {first : Condition} :
    evalChain s first rest = .error error ↔
      ∃ before condition later, first :: rest.map (·.2) = before ++ condition :: later ∧
        (∀ d ∈ later, ∃ holds, d.eval s = .ok holds) ∧ condition.eval s = .error error := by
  induction rest generalizing first with
  | nil =>
    constructor
    · intro h
      exact ⟨[], first, [], rfl, nofun, h⟩
    · rintro ⟨before, condition, later, hsplit, -, h⟩
      cases before with
      | nil =>
        obtain ⟨rfl, -⟩ := List.cons.inj hsplit
        exact h
      | cons d before => simp at hsplit
  | cons second rest ih =>
    obtain ⟨connector, next⟩ := second
    rw [evalChain_cons, except_bind_eq_error, ih]
    -- The first condition comes last: it is only evaluated where all the others have a value.
    constructor
    · rintro (⟨before, condition, later, hsplit, hlater, h⟩ | ⟨holds, hrest, h⟩)
      · refine ⟨first :: before, condition, later, ?_, hlater, h⟩
        rw [List.cons_append, ← hsplit]
        rfl
      · obtain hfirst | ⟨_, -, h⟩ := except_bind_eq_error.mp h
        · exact ⟨[], first, _, rfl, ok_of_evalChain hrest, hfirst⟩
        · cases h
    · rintro ⟨before, condition, later, hsplit, hlater, h⟩
      cases before with
      | nil =>
        obtain ⟨rfl, rfl⟩ := List.cons.inj hsplit
        obtain ⟨holds, hrest⟩ := evalChain_of_ok hlater
        exact .inr ⟨holds, hrest, except_bind_of_error h⟩
      | cons d before =>
        obtain ⟨-, hrest⟩ := List.cons.inj hsplit
        exact .inl ⟨before, condition, later, hrest, hlater, h⟩

/-- A chain fails with the last one of its conditions that fails. -/
theorem Chain.eval_eq_error_iff {c : Chain} :
    c.eval s = .error error ↔
      ∃ condition, c.Reaches s condition ∧ condition.eval s = .error error := by
  unfold Chain.eval
  rw [evalChain_eq_error_iff]
  constructor
  · rintro ⟨before, condition, later, hsplit, hlater, h⟩
    exact ⟨condition, ⟨before, later, hsplit, hlater⟩, h⟩
  · rintro ⟨condition, ⟨before, later, hsplit, hlater⟩, h⟩
    exact ⟨before, condition, later, hsplit, hlater, h⟩

end Stencil
