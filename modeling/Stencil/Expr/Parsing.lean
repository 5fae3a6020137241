import Stencil.Expr.Basic
import Stencil.Expr.Lexeme

/-! # Reading expressions -/

namespace Stencil.Expr

/-- What a reader of `ts` leaves, fewer lexemes than it was given. -/
abbrev Rest (ts : List Lexeme) := { r : List Lexeme // r.length < ts.length }

/-- What a reader of `ts` leaves that may have read nothing. -/
abbrev RestOrAll (ts : List Lexeme) := { r : List Lexeme // r.length ≤ ts.length }

/-- A reader of lexemes, which may come to a number that is too large. -/
abbrev Read := Except (Failure ExprFault)

abbrev refuse {α : Type} (fault : ExprFault) : Read α := .error (.malformed fault)

def expect (wanted : Lexeme) (ts : List Lexeme) : Read (Rest ts) :=
  match ts with
  | [] => refuse .unexpectedEnd
  | t :: rest =>
    if t = wanted then .ok ⟨rest, Nat.lt_succ_self _⟩
    else refuse (.expected wanted.text t.text)

def expectDots (ts : List Lexeme) : Read (Rest ts) :=
  match ts with
  | [] => refuse .unexpectedEnd
  | t :: rest => if t = .dots then .ok ⟨rest, Nat.lt_succ_self _⟩ else refuse .noDots

/-- A keyword stands for its value only when no path follows. -/
def ofName (markup name : String) (path : List Key) : Expr :=
  match path, keyword? name with
  | [], some v => .literal v
  | _, _ => .lookup (.name name) path markup

mutual

def readOne (markup : String) (ts : List Lexeme) : Read (Expr × Rest ts) :=
  match ts with
  | [] => refuse .unexpectedEnd
  | .quoted _ body :: rest =>
    .ok (.literal (.text (String.ofList body)), ⟨rest, Nat.lt_succ_self _⟩)
  | .number negative whole fraction :: rest =>
    match Lexeme.numberValue negative whole fraction with
    | .ok v => .ok (.literal v, ⟨rest, Nat.lt_succ_self _⟩)
    | .error o => .error (.overflow o)
  | .openParen :: rest => do
    let (start, ⟨r1, h1⟩) ← readOne markup rest
    let ⟨r2, h2⟩ ← expectDots r1
    let (stop, ⟨r3, h3⟩) ← readOne markup r2
    let ⟨r4, h4⟩ ← expect .closeParen r3
    return (.range start stop, ⟨r4, by simp only [List.length_cons]; omega⟩)
  | .name chars :: rest => do
    let (path, ⟨r, h⟩) ← readPath markup rest
    return (ofName markup (String.ofList chars) path, ⟨r, Nat.lt_succ_of_le h⟩)
  | .openBracket :: rest => do
    let (root, ⟨r1, h1⟩) ← readOne markup rest
    let ⟨r2, h2⟩ ← expect .closeBracket r1
    let (path, ⟨r3, h3⟩) ← readPath markup r2
    return (.lookup (.computed root) path markup, ⟨r3, by simp only [List.length_cons]; omega⟩)
  | t :: _ => refuse (.unexpected t.text)
  termination_by ts.length
  decreasing_by all_goals simp only [List.length_cons]; omega

def readPath (markup : String) (ts : List Lexeme) : Read (List Key × RestOrAll ts) :=
  match ts with
  | [.dot] => refuse .unexpectedEnd
  | .dot :: .name chars :: rest => do
    let (path, ⟨r, h⟩) ← readPath markup rest
    return (.name (String.ofList chars) :: path, ⟨r, by simp only [List.length_cons]; omega⟩)
  | .dot :: t :: _ => refuse (.noAttribute t.text)
  | .openBracket :: rest => do
    let (index, ⟨r1, h1⟩) ← readOne markup rest
    let ⟨r2, h2⟩ ← expect .closeBracket r1
    let (path, ⟨r3, h3⟩) ← readPath markup r2
    return (.computed index :: path, ⟨r3, by simp only [List.length_cons]; omega⟩)
  | ts => .ok ([], ⟨ts, Nat.le_refl _⟩)
  termination_by ts.length
  decreasing_by all_goals simp only [List.length_cons]; omega

end

/-- An expression that takes up all lexemes. No lexemes at all stand for nil. -/
def ofLexemes (markup : String) (ts : List Lexeme) : Read Expr :=
  match ts with
  | [] => .ok (.literal .nil)
  | ts => do
    let (e, ⟨rest, _⟩) ← readOne markup ts
    match rest with
    | [] => return e
    | t :: _ => refuse (.unexpected t.text)

/-- The expression that a markup writes, blanks around it aside. -/
def parse (markup : List Char) : Except (Failure SyntaxFault) Expr :=
  let trimmed := Text.trim markup
  let text := String.ofList trimmed
  match Lexeme.all trimmed with
  | .ok ts => (ofLexemes text ts).mapError (·.map (.expression · text))
  | .error fault => .error (.malformed (.expression fault text))

end Stencil.Expr
