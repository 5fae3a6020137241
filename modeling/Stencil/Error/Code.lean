/-! # Error codes -/

namespace Stencil

/-- The codes by which errors can be searched for. -/
inductive ErrorCode
  | unknownTag
  | unclosedBlock
  | invalidExpression
  | unexpectedArguments
  | undefinedVariable
  | evaluationError
  | includeDepth
  | runtimeError
  | invalidArgument
  | missingTemplateName
  | templateNotFound
  | syntaxError
deriving DecidableEq, Repr

namespace ErrorCode

def all : List ErrorCode :=
  [.unknownTag, .unclosedBlock, .invalidExpression, .unexpectedArguments, .undefinedVariable,
    .evaluationError, .includeDepth, .runtimeError, .invalidArgument, .missingTemplateName,
    .templateNotFound, .syntaxError]

def name : ErrorCode → String
  | .unknownTag => "UNKNOWN_TAG"
  | .unclosedBlock => "UNCLOSED_BLOCK"
  | .invalidExpression => "INVALID_EXPRESSION"
  | .unexpectedArguments => "UNEXPECTED_ARGUMENTS"
  | .undefinedVariable => "UNDEFINED_VARIABLE"
  | .evaluationError => "EVALUATION_ERROR"
  | .includeDepth => "INCLUDE_DEPTH"
  | .runtimeError => "RUNTIME_ERROR"
  | .invalidArgument => "INVALID_ARGUMENT"
  | .missingTemplateName => "MISSING_TEMPLATE_NAME"
  | .templateNotFound => "TEMPLATE_NOT_FOUND"
  | .syntaxError => "SYNTAX_ERROR"

/-- The code itself: `PAR` for reading, `RUN` for rendering, `TPL` for loading a template. -/
def text : ErrorCode → String
  | .unknownTag => "S-PAR-001"
  | .unclosedBlock => "S-PAR-002"
  | .invalidExpression => "S-PAR-003"
  | .unexpectedArguments => "S-PAR-004"
  | .undefinedVariable => "S-RUN-001"
  | .evaluationError => "S-RUN-002"
  | .includeDepth => "S-RUN-006"
  | .runtimeError => "S-RUN-007"
  | .invalidArgument => "S-RUN-008"
  | .missingTemplateName => "S-RUN-009"
  | .templateNotFound => "S-TPL-001"
  | .syntaxError => "S-TPL-002"

def category : ErrorCode → String
  | .unknownTag | .unclosedBlock | .invalidExpression | .unexpectedArguments => "parser"
  | .undefinedVariable | .evaluationError | .includeDepth | .runtimeError | .invalidArgument
  | .missingTemplateName => "runtime"
  | .templateNotFound | .syntaxError => "template"

end ErrorCode

end Stencil
