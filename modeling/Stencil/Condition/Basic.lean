import Stencil.Expr.Parsing
import Stencil.Markup.Fragment
import Stencil.Value.Order

/-! # Conditions -/

namespace Stencil

/-! ## Tests -/

/-- How two values may be compared. `differs` is a second way to write `unequal`. -/
inductive Operator
  | equal
  | unequal
  | differs
  | compares (c : Value.Comparison)
  | contains
deriving DecidableEq, Repr

namespace Operator

def text : Operator → String
  | .equal => "=="
  | .unequal => "!="
  | .differs => "<>"
  | .compares .less => "<"
  | .compares .greater => ">"
  | .compares .lessOrEqual => "<="
  | .compares .greaterOrEqual => ">="
  | .contains => "contains"

def ofText? : String → Option Operator
  | "==" => some .equal
  | "!=" => some .unequal
  | "<>" => some .differs
  | "<" => some (.compares .less)
  | ">" => some (.compares .greater)
  | "<=" => some (.compares .lessOrEqual)
  | ">=" => some (.compares .greaterOrEqual)
  | "contains" => some .contains
  | _ => none

end Operator

/-- A value, or two values and how they compare. -/
structure Condition where
  left : Expr
  test : Option (Operator × Expr)

/-! ## Chains -/

inductive Connector
  | and
  | or
deriving DecidableEq, Repr

def Connector.text : Connector → String
  | .and => "and"
  | .or => "or"

def Connector.ofText? : String → Option Connector
  | "and" => some .and
  | "or" => some .or
  | _ => none

/-- Conditions with a connector between each two of them. -/
structure Chain where
  first : Condition
  rest : List (Connector × Condition)

namespace Chain

def conditions (c : Chain) : List Condition := c.first :: c.rest.map (·.2)

def connectors (c : Chain) : List Connector := c.rest.map (·.1)

end Chain

/-! ## Reading -/

/-- The words between two connectors. -/
def Condition.ofWords (markup : List Char) (clause : List (List Char)) :
    Except (Failure SyntaxFault) Condition :=
  let invalid : Except (Failure SyntaxFault) Condition :=
    .error (.malformed
      (.condition (" ".intercalate (clause.map String.ofList)) (String.ofList markup)))
  match clause with
  | [value] => do
    let e ← Expr.parse value
    return ⟨e, none⟩
  | [left, operator, right] =>
    match Operator.ofText? (String.ofList operator) with
    | none => invalid
    | some op => do
      let l ← Expr.parse left
      let r ← Expr.parse right
      return ⟨l, some (op, r)⟩
  | _ => invalid

/-- The words before the first connector, and the connector with the words after it. -/
def splitClause : List (List Char) → List (List Char) × Option (Connector × List (List Char))
  | [] => ([], none)
  | word :: words =>
    match Connector.ofText? (String.ofList word) with
    | some connector => ([], some (connector, words))
    | none =>
      let (clause, more) := splitClause words
      (word :: clause, more)

theorem splitClause_length {words clause more : List (List Char)} {connector : Connector}
    (h : splitClause words = (clause, some (connector, more))) : more.length < words.length := by
  induction words generalizing clause with
  | nil => simp [splitClause] at h
  | cons word words ih =>
    unfold splitClause at h
    split at h
    · simp only [Prod.mk.injEq, Option.some.injEq] at h
      simp [h.2.2]
    · simp only [Prod.mk.injEq] at h
      have := @ih (splitClause words).1 (Prod.ext rfl h.2)
      simp only [List.length_cons]
      omega

/-- Every clause in order, each with the connector before it. -/
def readClauses (markup : List Char) (words : List (List Char)) :
    Except (Failure SyntaxFault) (Condition × List (Connector × Condition)) :=
  match _h : splitClause words with
  | (clause, none) => do
    let first ← Condition.ofWords markup clause
    return (first, [])
  | (clause, some (connector, more)) => do
    let first ← Condition.ofWords markup clause
    let (next, rest) ← readClauses markup more
    return (first, (connector, next) :: rest)
  termination_by words.length
  decreasing_by exact splitClause_length _h

def Chain.parse (markup : List Char) : Except (Failure SyntaxFault) Chain :=
  match Markup.words markup with
  | [] => .error (.malformed .noCondition)
  | words => do
    let (first, rest) ← readClauses markup words
    return ⟨first, rest⟩

end Stencil
