import Stencil.Number.Reading
import Stencil.Value.Host

/-! # Values as whole numbers -/

namespace Stencil.Value

/--
Booleans, numbers without their fraction, text that writes a number, and what an object of the host
makes of itself.
-/
def whole? (host : Host) : Value → Except NotWhole Int
  | .bool b => .ok (if b then 1 else 0)
  | .int n => .ok n
  | .float (.finite negative m e) => .ok (Binary64.truncate negative m e)
  | .float (.infinite _) => .error .infinite
  | .text s => match readInt? s.toList with
    | some n => .ok n
    | none => .error .unreadable
  | .object id className attributes => host.whole? (.object id className attributes)
  | _ => .error .unreadable

end Stencil.Value
