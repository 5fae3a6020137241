import Stencil.Error.Code

/-! # Kinds of errors -/

namespace Stencil

inductive RuntimeKind
  | general
  | argument
  | missingName
  | evaluation
  | depth
deriving DecidableEq, Repr

def RuntimeKind.code : RuntimeKind → ErrorCode
  | .general => .runtimeError
  | .argument => .invalidArgument
  | .missingName => .missingTemplateName
  | .evaluation => .evaluationError
  | .depth => .includeDepth

inductive ErrorKind
  | general
  | notFound
  | malformed
  | unterminated
  | undefined
  | runtime (kind : RuntimeKind)
deriving DecidableEq, Repr

end Stencil
