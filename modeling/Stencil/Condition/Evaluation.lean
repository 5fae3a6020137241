import Stencil.Condition.Basic
import Stencil.Expr.Evaluation

/-! # The truth of conditions -/

namespace Stencil

/-- How two values compare, if their types can be compared at all. -/
def Operator.apply? (host : Host) : Operator → Value → Value → Option Bool
  | .equal, v, w => some (v.equals host w)
  | .unequal, v, w => some (!v.equals host w)
  | .differs, v, w => some (!v.equals host w)
  | .compares c, v, w => v.compare? host c w
  | .contains, v, w => v.contains? host w

def Setting.comparisonError (s : Setting) (op : Operator) (left right : Value) : Error :=
  .quoting do
    let l ← left.literal? s.host
    let r ← right.literal? s.host
    return s.fault (.comparison left.typeName right.typeName)
      (some (l ++ " " ++ op.text ++ " " ++ r))

def Condition.eval (s : Setting) (c : Condition) : Except Error Bool := do
  let left ← c.left.eval s
  match c.test with
  | none => return left.isTruthy
  | some (op, e) =>
    let right ← e.eval s
    match op.apply? s.host left right with
    | some holds => return holds
    | none => .error (s.comparisonError op left right)

def Connector.apply : Connector → Bool → Bool → Bool
  | .and, a, b => a && b
  | .or, a, b => a || b

/-- Every condition is evaluated, from the last to the first. -/
def evalChain (s : Setting) (first : Condition) : List (Connector × Condition) → Except Error Bool
  | [] => first.eval s
  | (connector, next) :: rest => do
    let later ← evalChain s next rest
    let holds ← first.eval s
    return connector.apply holds later

/-- Connectors group from the right. -/
def Chain.eval (s : Setting) (c : Chain) : Except Error Bool := evalChain s c.first c.rest

end Stencil
