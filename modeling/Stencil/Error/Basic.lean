import Stencil.Error.Load
import Stencil.Error.Overflow
import Stencil.Error.Runtime
import Stencil.Error.Syntax
import Stencil.Number.Digits
import Stencil.Text.Search

/-! # Errors -/

namespace Stencil

/--
Everything that may stop reading, loading or rendering a template. `general` is a template error of
no other kind; `overflow` and `file` are no template errors.
-/
inductive Error
  | malformed (e : SyntaxError)
  | notFound (e : LoadError)
  | undefined (e : UndefinedError)
  | runtime (e : RuntimeError)
  | general (message : String)
  | overflow (o : Overflow)
  | file (f : FileFault)
deriving DecidableEq, Repr

namespace Error

/-- An error of which a host gives no more than its kind and one text. -/
def stated : ErrorKind → String → Error
  | .general, message => .general message
  | .notFound, message => .notFound (.stated message)
  | .malformed, message => .malformed (.ofFault (.stated message none))
  | .unterminated, block => .malformed (.ofFault (.unterminated block))
  | .undefined, name => .undefined ⟨name, none, none, []⟩
  | .runtime .missingName, expression => .runtime ⟨.missingName, some expression, none, none, []⟩
  | .runtime kind, message => .runtime ⟨.stated kind message none, none, none, none, []⟩

def isTemplateError : Error → Bool
  | .overflow _ => false
  | .file _ => false
  | _ => true

def code? : Error → Option ErrorCode
  | .malformed e => some e.fault.code
  | .notFound _ => some .templateNotFound
  | .undefined _ => some .undefinedVariable
  | .runtime e => some e.fault.kind.code
  | _ => none

def message (coloured : Bool) : Error → String
  | .malformed e => e.message coloured
  | .notFound e => e.message
  | .undefined e => e.message coloured
  | .runtime e => e.message coloured
  | .general message => message
  | .overflow .infinite => "cannot convert float infinity to integer"
  | .overflow .tooLong => "too many items"
  | .overflow .tooLarge => ""
  | .overflow (.unreadable digits) =>
    "more than " ++ toString maxDigits ++ " digits to read: " ++ toString digits
  | .overflow .unwritable => "more than " ++ toString maxDigits ++ " digits to write"
  | .file f => f.message

/-- A message after its code, unless the code stands in it. -/
def withCode (code? : Option ErrorCode) (message : String) : String :=
  match code? with
  | some code =>
    if Text.occursIn code.text.toList message.toList then message
    else code.text ++ ": " ++ message
  | none => message

/-- The error on one screen, with its code. -/
def compact (coloured : Bool) : Error → String
  | .runtime e => e.compact coloured
  | e => withCode e.code? (e.message coloured)

end Error

end Stencil
