import Stencil.Text.Order
import Stencil.Value.Equality

/-! # The order of values -/

namespace Stencil.Value

/-- What a comparison says of two values in this order. -/
def Comparison.holds : Comparison → Ordering → Bool
  | .less, o => o = .lt
  | .lessOrEqual, o => o ≠ .gt
  | .greater, o => o = .gt
  | .greaterOrEqual, o => o ≠ .lt

/-- Against a NaN no comparison holds. -/
def compareNumbers? (c : Comparison) (v w : Value) : Option Bool :=
  match v.number?, w.number? with
  | some x, some y => some ((x.compare? y).any c.holds)
  | _, _ => none

section

variable (host : Host)

mutual

/--
Whether `v` stands in the order `c` to a second value, if their types have an order. Lists and
tuples compare by the first elements that differ, and by length when there are none.
-/
def compare? (c : Comparison) (v : Value) : Value → Option Bool := fun w =>
  if v.isObject || w.isObject then host.compare? c v w
  else match v with
  | .bool _ => compareNumbers? c v w
  | .int _ => compareNumbers? c v w
  | .float _ => compareNumbers? c v w
  | .text s => match w with
    | .text t => some (c.holds (Text.order s t))
    | _ => none
  | .list items => match w with
    | .list items' => compareItems? c items items'
    | _ => none
  | .tuple items => match w with
    | .tuple items' => compareItems? c items items'
    | _ => none
  | _ => none

def compareItems? (c : Comparison) : List Value → List Value → Option Bool
  | [], [] => some (c.holds .eq)
  | [], _ :: _ => some (c.holds .lt)
  | _ :: _, [] => some (c.holds .gt)
  | v :: vs, w :: ws => if isSame host v w then compareItems? c vs ws else compare? c v w

end

end

end Stencil.Value
