import Stencil.Error.Basic
import Stencil.Expr.Basic
import Stencil.Scope
import Stencil.Value.Printing
import Stencil.Value.Reading
import Stencil.Value.Whole

/-! # The value of expressions -/

namespace Stencil

/-- The error, unless a text that it quotes is missing. -/
def Error.quoting : Option Error → Error
  | some e => e
  | none => .overflow .unwritable

/-- What an expression is evaluated in. Where `strict` is set, every variable must be bound. -/
structure Setting where
  scope : Scope
  strict : Bool
  template : Option String
  line : Option Int
  host : Host

namespace Setting

def fault (s : Setting) (fault : RuntimeFault) (expression : Option String) : Error :=
  .runtime ⟨fault, expression, s.template, s.line, []⟩

/-- The value of a lookup that found nothing. -/
def undefined (s : Setting) (markup : String) : Except Error Value :=
  if s.strict then .error (.undefined ⟨markup, s.template, s.line, s.scope.names⟩) else .ok .nil

/-- Why `v` has no part under `key`. -/
def readError (s : Setting) (markup : String) (v key : Value) : Value.ReadFault → Error
  | .own kind message => .stated kind message
  | f => .quoting ((key.literal? s.host).map fun text =>
      s.fault (.reading text v.typeName f.message) (some markup))

def read (s : Setting) (markup : String) (v key : Value) : Except Error Value :=
  match v.read s.host key with
  | .ok found => .ok found
  | .error f => .error (s.readError markup v key f)

/-- A value as a whole number; `unreadable` says what is wrong when it is none. -/
def whole (s : Setting) (unreadable : Error) (v : Value) : Except Error Int :=
  match v.whole? s.host with
  | .ok n => .ok n
  | .error .unreadable => .error unreadable
  | .error .infinite => .error (.overflow .infinite)

def boundsError (s : Setting) (low high : Value) : Error :=
  .quoting do
    let start ← low.literal? s.host
    let stop ← high.literal? s.host
    return s.fault (.bounds start stop) none

def argumentError (s : Setting) (v : Value) : Error :=
  .quoting ((v.literal? s.host).map fun text => s.fault (.loopArgument text) none)

end Setting

namespace Expr

mutual

/-- The value of an expression. Names that nothing binds give nil, unless the setting is strict. -/
def eval (s : Setting) : Expr → Except Error Value
  | .literal v => .ok v
  | .range start stop => do
    let low ← eval s start
    let high ← eval s stop
    let first ← s.whole (s.boundsError low high) low
    let last ← s.whole (s.boundsError low high) high
    return .range first (last + 1)
  | .lookup root path markup => do
    let start ← evalRoot s root
    match ← evalPath s markup start path with
    | .missing => s.undefined markup
    | v => return v

/-- Only text names a variable. -/
def evalRoot (s : Setting) : Key → Except Error Value
  | .name name => .ok (s.scope.find name)
  | .computed e => do
    match ← eval s e with
    | .text name => return s.scope.find name
    | _ => return .missing

def evalKey (s : Setting) : Key → Except Error Value
  | .name name => .ok (.text name)
  | .computed e => eval s e

/-- Nothing is read, and no key evaluated, after the first part that is missing. -/
def evalPath (s : Setting) (markup : String) (v : Value) : List Key → Except Error Value
  | [] => .ok v
  | key :: rest =>
    if v matches .missing then .ok .missing
    else do
      let k ← evalKey s key
      let next ← s.read markup v k
      evalPath s markup next rest

end

end Expr

end Stencil
