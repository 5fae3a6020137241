import Stencil.Proofs.Condition.Clauses
import Stencil.Proofs.Condition.Failure

/-!
# The order of conditions

A chain has one condition more than it has connectors. The loop that goes over both from the last on
meets each of them once, and what it finds is the chain grouped from the right.
-/

namespace Stencil

universe u

section

variable {m : Type → Type u} [Monad m] {evaluate : Condition → m Bool}

/-! ## From the last condition on -/

/-- The truth of a chain whose connectors group from the right. -/
def groupRight (first : Bool) : List (Connector × Bool) → Bool
  | [] => first
  | (.and, next) :: rest => first && groupRight next rest
  | (.or, next) :: rest => first || groupRight next rest

/--
Starts with the last condition, and takes each one before it with the connector after that one.
There has to be a last condition, and as many connectors as conditions before it.
-/
def evalBackward? (evaluate : Condition → m Bool) (conditions : List Condition)
    (connectors : List Connector) : Option (m Bool) :=
  match conditions.reverse with
  | [] => none
  | last :: earlier =>
    if earlier.length = connectors.length then
      some do
        let found ← evaluate last
        (earlier.zip connectors.reverse).foldlM (fun later (condition, connector) => do
          let holds ← evaluate condition
          return if connector = .and then holds && later else holds || later) found
    else none

/-- What each condition of a chain evaluates to, in its place. The last one is evaluated first. -/
def valuesBackward (evaluate : Condition → m Bool) (c : Chain) :
    m (Bool × List (Connector × Bool)) := do
  let later ← c.rest.reverse.mapM fun (connector, condition) => do
    let holds ← evaluate condition
    return (connector, holds)
  let first ← evaluate c.first
  return (first, later.reverse)

variable [LawfulMonad m]

theorem groupRight_cons (first next : Bool) (connector : Connector)
    (rest : List (Connector × Bool)) :
    groupRight first ((connector, next) :: rest) =
      connector.apply first (groupRight next rest) := by
  cases connector <;> rfl

theorem Connector.apply_eq (connector : Connector) (holds later : Bool) :
    connector.apply holds later = if connector = .and then holds && later else holds || later := by
  cases connector <;> rfl

theorem evalBackward?_singleton (condition : Condition) :
    evalBackward? evaluate [condition] [] = some (evaluate condition) := by
  simp [evalBackward?]

theorem evalBackward?_cons (first next : Condition) (conditions : List Condition)
    (connector : Connector) (connectors : List Connector) :
    evalBackward? evaluate (first :: next :: conditions) (connector :: connectors) =
      (evalBackward? evaluate (next :: conditions) connectors).map fun rest => do
        let later ← rest
        let holds ← evaluate first
        return if connector = .and then holds && later else holds || later := by
  obtain ⟨last, earlier, hreverse⟩ : ∃ last earlier,
      (next :: conditions).reverse = last :: earlier :=
    List.exists_cons_of_ne_nil (by simp)
  have hall : (first :: next :: conditions).reverse = last :: (earlier ++ [first]) := by
    rw [List.reverse_cons, hreverse, List.cons_append]
  unfold evalBackward?
  rw [hall, hreverse]
  by_cases hlength : earlier.length = connectors.length
  · have hzip : (earlier ++ [first]).zip (connectors.reverse ++ [connector]) =
        earlier.zip connectors.reverse ++ [(first, connector)] :=
      List.zip_append (by rw [hlength, List.length_reverse])
    simp [hlength, hzip]
  · simp [hlength]

theorem valuesBackward_cons (first next : Condition) (connector : Connector)
    (rest : List (Connector × Condition)) :
    valuesBackward evaluate ⟨first, (connector, next) :: rest⟩ = do
      let later ← valuesBackward evaluate ⟨next, rest⟩
      let holds ← evaluate first
      return (holds, (connector, later.1) :: later.2) := by
  simp [valuesBackward]

/-! ## The loop over a chain -/

theorem Chain.length_conditions (c : Chain) :
    c.conditions.length = c.connectors.length + 1 := by
  simp [conditions, connectors]

/-- The loop never fails on a chain, and evaluates every condition. -/
theorem Chain.evalBackward?_eq_values (c : Chain) :
    evalBackward? evaluate c.conditions c.connectors = some do
      let found ← valuesBackward evaluate c
      return groupRight found.1 found.2 := by
  obtain ⟨first, rest⟩ := c
  unfold conditions connectors
  induction rest generalizing first with
  | nil =>
    rw [List.map_nil, List.map_nil, evalBackward?_singleton]
    simp [valuesBackward, groupRight]
  | cons second rest ih =>
    obtain ⟨connector, next⟩ := second
    rw [List.map_cons, List.map_cons, evalBackward?_cons, ih next, valuesBackward_cons]
    simp [groupRight_cons, Connector.apply_eq]

theorem Chain.evalBackward?_eq_eval (s : Setting) (c : Chain) :
    evalBackward? (Condition.eval s) c.conditions c.connectors = some (c.eval s) := by
  obtain ⟨first, rest⟩ := c
  unfold conditions connectors eval
  induction rest generalizing first with
  | nil => exact evalBackward?_singleton first
  | cons second rest ih =>
    obtain ⟨connector, next⟩ := second
    rw [List.map_cons, List.map_cons, evalBackward?_cons, ih next, evalChain_cons]
    simp only [Connector.apply_eq]
    rfl

end

/-! ## Values and errors -/

section

variable {s : Setting}

theorem Chain.eval_of_ok {c : Chain} {holds : Condition → Bool}
    (h : ∀ d ∈ c.conditions, d.eval s = .ok (holds d)) :
    c.eval s = .ok (groupRight (holds c.first) (c.rest.map fun d => (d.1, holds d.2))) := by
  obtain ⟨first, rest⟩ := c
  unfold conditions at h
  unfold eval
  induction rest generalizing first with
  | nil => exact h first List.mem_cons_self
  | cons second rest ih =>
    obtain ⟨connector, next⟩ := second
    have hfirst := h first List.mem_cons_self
    have hrest := ih next fun d hd => h d (List.mem_cons_of_mem first hd)
    rw [evalChain_cons, except_bind_of_ok hrest, except_bind_of_ok hfirst, List.map_cons,
      groupRight_cons]

theorem Chain.fails_iff {c : Chain} :
    (∃ error, c.eval s = .error error) ↔ ∃ d ∈ c.conditions, ∃ error, d.eval s = .error error := by
  constructor
  · rintro ⟨error, h⟩
    obtain ⟨d, ⟨before, later, hsplit, -⟩, hd⟩ := eval_eq_error_iff.mp h
    exact ⟨d, by simp [hsplit], error, hd⟩
  · rintro ⟨d, hmem, error, hd⟩
    cases heval : c.eval s with
    | error e => exact ⟨e, rfl⟩
    | ok holds =>
      obtain ⟨value, hvalue⟩ := ok_of_evalChain heval d hmem
      cases hd.symm.trans hvalue

end

/--
A chain that is read has the connectors that are among the words, and one condition more. Its
conditions are all evaluated, from the last to the first, whatever values are found on the way; the
connectors group from the right, and of the conditions that fail the last one is reported.
-/
theorem Chain.groups_from_right {m : Type → Type u} [Monad m] [LawfulMonad m]
    (evaluate : Condition → m Bool) (s : Setting) (markup : List Char) (c : Chain) :
    (Chain.parse markup = .ok c →
      AreWritten c.first c.rest (Markup.words markup) ∧
        c.connectors = (Markup.words markup).filterMap connector?) ∧
    c.conditions.length = c.connectors.length + 1 ∧
    evalBackward? (Condition.eval s) c.conditions c.connectors = some (c.eval s) ∧
    (evalBackward? evaluate c.conditions c.connectors = some do
      let found ← valuesBackward evaluate c
      return groupRight found.1 found.2) ∧
    (∀ holds : Condition → Bool, (∀ d ∈ c.conditions, d.eval s = .ok (holds d)) →
      c.eval s = .ok (groupRight (holds c.first) (c.rest.map fun d => (d.1, holds d.2)))) ∧
    ((∃ error, c.eval s = .error error) ↔ ∃ d ∈ c.conditions, ∃ error, d.eval s = .error error) ∧
    ∀ error, c.eval s = .error error ↔ ∃ before d later,
      c.conditions = before ++ d :: later ∧ (∀ e ∈ later, ∃ holds, e.eval s = .ok holds) ∧
        d.eval s = .error error := by
  refine ⟨fun hparse => ?_, c.length_conditions, c.evalBackward?_eq_eval s,
    c.evalBackward?_eq_values, fun holds => eval_of_ok, fails_iff, fun error =>
    evalChain_eq_error_iff⟩
  have hwritten := parse_eq_ok_iff.mp hparse
  exact ⟨hwritten, hwritten.connectors_eq⟩

/-- A chain that would hold if its connectors grouped from the left. -/
def groupedLate : Chain :=
  ⟨⟨.literal (.bool false), none⟩,
    [(.and, ⟨.literal (.bool true), none⟩), (.or, ⟨.literal (.int 1), none⟩)]⟩

/-- A chain that would not hold if its connectors grouped from the left. -/
def groupedEarly : Chain :=
  ⟨⟨.literal (.bool true), none⟩,
    [(.or, ⟨.literal (.int 1), none⟩), (.and, ⟨.literal (.bool false), none⟩)]⟩

/-- Notes each value that is asked for. -/
def noteValue (condition : Condition) : StateM (List Value) Bool := do
  match condition.left with
  | .literal v =>
    modify (· ++ [v])
    return v.isTruthy
  | _ => return false

theorem Chain.only_groupedEarly_holds :
    (Chain.parse "false and true or 1".toList = .ok groupedLate ∧
      groupedLate.connectors = [.and, .or] ∧
      groupedLate.eval ⟨⟨[], []⟩, true, none, none, .plain⟩ = .ok false ∧
      (evalBackward? noteValue groupedLate.conditions groupedLate.connectors).map (· []) =
        some (false, [.int 1, .bool true, .bool false])) ∧
    Chain.parse "true or 1 and false".toList = .ok groupedEarly ∧
      groupedEarly.connectors = [.or, .and] ∧
      groupedEarly.eval ⟨⟨[], []⟩, true, none, none, .plain⟩ = .ok true ∧
      (evalBackward? noteValue groupedEarly.conditions groupedEarly.connectors).map (· []) =
        some (true, [.bool false, .int 1, .bool true]) := by
  have hlate : Chain.parse "false and true or 1".toList = .ok groupedLate := by
    with_unfolding_all rfl
  have hearly : Chain.parse "true or 1 and false".toList = .ok groupedEarly := by
    with_unfolding_all rfl
  obtain ⟨hread, -, -, horder, hvalue, -⟩ := groups_from_right noteValue
    ⟨⟨[], []⟩, true, none, none, .plain⟩ "false and true or 1".toList groupedLate
  obtain ⟨hread', -, -, horder', hvalue', -⟩ := groups_from_right noteValue
    ⟨⟨[], []⟩, true, none, none, .plain⟩ "true or 1 and false".toList groupedEarly
  refine ⟨⟨hlate, (hread hlate).2.trans ?_, hvalue (fun d => (noteValue d []).1) ?_, ?_⟩,
    hearly, (hread' hearly).2.trans ?_, hvalue' (fun d => (noteValue d []).1) ?_, ?_⟩
  · with_unfolding_all rfl
  · intro d hd
    simp only [conditions, groupedLate, List.map_cons, List.map_nil, List.mem_cons,
      List.not_mem_nil, or_false] at hd
    rcases hd with rfl | rfl | rfl <;> rfl
  · rw [horder]
    rfl
  · with_unfolding_all rfl
  · intro d hd
    simp only [conditions, groupedEarly, List.map_cons, List.map_nil, List.mem_cons,
      List.not_mem_nil, or_false] at hd
    rcases hd with rfl | rfl | rfl <;> rfl
  · rw [horder']
    rfl

end Stencil
