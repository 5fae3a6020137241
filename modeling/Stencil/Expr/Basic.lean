import Stencil.Value.Basic

/-! # Expressions -/

namespace Stencil

mutual

/--
What a tag or an output marker may compute. A lookup keeps the markup it was written in, for
messages.
-/
inductive Expr
  | literal (v : Value)
  | range (start stop : Expr)
  | lookup (root : Key) (path : List Key) (markup : String)

/-- A name that is written out, or one that is computed. -/
inductive Key
  | name (s : String)
  | computed (e : Expr)

end

/-- The words that stand for a value of their own. -/
def keyword? : String → Option Value
  | "true" => some (.bool true)
  | "false" => some (.bool false)
  | "nil" => some .nil
  | "null" => some .nil
  | "empty" => some .empty
  | "blank" => some .blank
  | _ => none

end Stencil
