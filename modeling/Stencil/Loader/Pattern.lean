import Stencil.Error.Overflow
import Stencil.Loader.Layout
import Stencil.Loader.Part

/-! # Patterns of file names -/

namespace Stencil.Pattern

open Text

/-! ## Fields -/

/-- What stands between braces: what to show, how to write it, and how to lay it out. -/
structure Field where
  place : List Char
  conversion : Option Char
  layout : List Char
deriving DecidableEq, Repr

/--
What a field shows, the character that ends it, and what follows. Inside brackets nothing ends it.
-/
def splitPlace (inBrackets : Bool) :
    List Char → Except PatternFault (List Char × Char × List Char)
  | [] => .error .unclosedField
  | c :: rest =>
    let more (inBrackets : Bool) := (splitPlace inBrackets rest).map
      fun (place, mark, after) => (c :: place, mark, after)
    if inBrackets then more (c ≠ ']')
    else if c = '{' then .error .braceInField
    else if c = '}' ∨ c = ':' ∨ c = '!' then .ok ([], c, rest)
    else more (c = '[')

/-- The text up to the brace that closes `depth` more than it opens, and what follows it. -/
def splitLayout (depth : Nat) : List Char → Except PatternFault (List Char × List Char)
  | [] => .error .unclosedLayout
  | c :: rest =>
    let more (depth : Nat) := (splitLayout depth rest).map
      fun (layout, after) => (c :: layout, after)
    if c = '{' then more (depth + 1)
    else if c = '}' then
      match depth with
      | 0 => .ok ([], rest)
      | depth + 1 => more depth
    else more depth

def readLayout (place : List Char) (conversion : Option Char) (cs : List Char) :
    Except PatternFault (Field × List Char) :=
  (splitLayout 0 cs).map fun (layout, after) => (⟨place, conversion, layout⟩, after)

def readConversion (place cs : List Char) : Except PatternFault (Field × List Char) :=
  match cs with
  | [] => .error .noConversion
  | [_] => .error .unclosedLayout
  | c :: '}' :: rest => .ok (⟨place, some c, []⟩, rest)
  | c :: ':' :: rest => readLayout place (some c) rest
  | _ => .error .afterConversion

def readField (cs : List Char) : Except PatternFault (Field × List Char) :=
  match splitPlace false cs with
  | .error fault => .error fault
  | .ok (place, mark, rest) =>
    if mark = ':' then readLayout place none rest
    else if mark = '!' then readConversion place rest
    else .ok (⟨place, none, []⟩, rest)

theorem splitPlace_length {inBrackets : Bool} {cs place after : List Char} {mark : Char}
    (h : splitPlace inBrackets cs = .ok (place, mark, after)) : after.length < cs.length := by
  induction cs generalizing inBrackets place with
  | nil => simp [splitPlace] at h
  | cons c rest ih =>
    have step {b : Bool} (h : (splitPlace b rest).map
        (fun (place, mark, after) => (c :: place, mark, after)) = .ok (place, mark, after)) :
        after.length < (c :: rest).length := by
      cases hs : splitPlace b rest with
      | error e => simp [hs, Except.map] at h
      | ok found =>
        obtain ⟨p, m, a⟩ := found
        simp only [hs, Except.map, Except.ok.injEq, Prod.mk.injEq] at h
        obtain ⟨_, rfl, rfl⟩ := h
        exact Nat.lt_succ_of_lt (ih hs)
    unfold splitPlace at h
    dsimp only at h
    split at h
    · exact step h
    · split at h
      · simp at h
      · split at h
        · simp only [Except.ok.injEq, Prod.mk.injEq] at h
          simp [h.2.2]
        · exact step h

theorem splitLayout_length {depth : Nat} {cs layout after : List Char}
    (h : splitLayout depth cs = .ok (layout, after)) : after.length < cs.length := by
  induction cs generalizing depth layout with
  | nil => simp [splitLayout] at h
  | cons c rest ih =>
    have step {d : Nat} (h : (splitLayout d rest).map
        (fun (layout, after) => (c :: layout, after)) = .ok (layout, after)) :
        after.length < (c :: rest).length := by
      cases hs : splitLayout d rest with
      | error e => simp [hs, Except.map] at h
      | ok found =>
        obtain ⟨l, a⟩ := found
        simp only [hs, Except.map, Except.ok.injEq, Prod.mk.injEq] at h
        obtain ⟨_, rfl⟩ := h
        exact Nat.lt_succ_of_lt (ih hs)
    unfold splitLayout at h
    dsimp only at h
    split at h
    · exact step h
    · split at h
      · split at h
        · simp only [Except.ok.injEq, Prod.mk.injEq] at h
          simp [h.2]
        · exact step h
      · exact step h

theorem readLayout_length {place cs after : List Char} {conversion : Option Char} {field : Field}
    (h : readLayout place conversion cs = .ok (field, after)) : after.length < cs.length := by
  unfold readLayout at h
  cases hs : splitLayout 0 cs with
  | error e => simp [hs, Except.map] at h
  | ok found =>
    obtain ⟨l, a⟩ := found
    simp only [hs, Except.map, Except.ok.injEq, Prod.mk.injEq] at h
    rw [← h.2]
    exact splitLayout_length hs

theorem readConversion_length {place cs after : List Char} {field : Field}
    (h : readConversion place cs = .ok (field, after)) : after.length < cs.length := by
  unfold readConversion at h
  split at h
  · simp at h
  · simp at h
  · simp only [Except.ok.injEq, Prod.mk.injEq] at h
    simp only [h.2, List.length_cons]
    omega
  · have := readLayout_length h
    simp only [List.length_cons]
    omega
  · simp at h

theorem readField_length {cs after : List Char} {field : Field}
    (h : readField cs = .ok (field, after)) : after.length < cs.length := by
  unfold readField at h
  split at h
  · simp at h
  · next place mark rest hs =>
    have h1 := splitPlace_length hs
    split at h
    · exact Nat.lt_trans (readLayout_length h) h1
    · split at h
      · exact Nat.lt_trans (readConversion_length h) h1
      · simp only [Except.ok.injEq, Prod.mk.injEq] at h
        rw [← h.2]
        exact h1

/-! ## What a field shows -/

/-- A place in a field is a number, if its digits do not run out before its end. -/
def readPlace (cs : List Char) : Except PatternFault (Option Nat) :=
  match leadingNumber? cs with
  | none => .error .tooManyDigits
  | some (n, rest) => .ok (if cs = [] ∨ rest ≠ [] then none else some n)

def follow (p : Part) (cs : List Char) : Except PatternFault Part :=
  match cs with
  | [] => .ok p
  | '.' :: rest => do
    let name := rest.takeWhile fun c => c ≠ '.' && c ≠ '['
    if name = [] then .error .emptyPart
    else
      let found ← p.readAttribute (String.ofList name)
      follow found (rest.dropWhile fun c => c ≠ '.' && c ≠ '[')
  | '[' :: rest => do
    let inner := rest.takeWhile (· ≠ ']')
    let place ← readPlace inner
    if inner = [] then .error .emptyPart
    else
      let found ← p.readItem place
      follow found ((rest.dropWhile (· ≠ ']')).drop 1)
  | _ => .error .afterBracket
  termination_by cs.length
  decreasing_by
    · exact Nat.lt_succ_of_le (List.dropWhile_sublist _).length_le
    · have := (List.dropWhile_sublist (l := rest) (· ≠ ']')).length_le
      simp only [List.length_drop, List.length_cons]
      omega

/-- Only the field `name` has a value; fields without a name, and numbers, have none. -/
def value (place : List Char) (leaf : String) : Except PatternFault Part := do
  let field := place.takeWhile fun c => c ≠ '.' && c ≠ '['
  let number ← readPlace field
  if field = [] ∨ number.isSome then .error .noField
  else if field ≠ "name".toList then .error (.unknownField (String.ofList field))
  else follow (.text leaf) (place.drop field.length)

/-- The character zero asks for no conversion. -/
def convert (conversion : Option Char) (p : Part) : Except PatternFault Part :=
  match conversion with
  | none => .ok p
  | some '\x00' => .ok p
  | some 's' => .ok (.text p.shown)
  | some 'r' => .ok (.text (p.quotedWith quoted))
  | some 'a' => .ok (.text (p.quotedWith quotedAscii))
  | some c => .error (.unknownConversion c)

/-- Only text can be laid out, and only if it fits in memory. -/
def layOut (p : Part) (layout : List Char) : Except PatternFault (List Char) :=
  match p with
  | .text s => match Layout.read layout with
    | .error fault => .error (.layout fault)
    | .ok l => if maxBytes < l.width then .error .tooLarge else .ok (l.apply s.toList)
  | p => if layout = [] then .ok p.shown.toList else .error (.noLayout p.typeName)

/-! ## Filling -/

/-- The text of a field. `expand` fills the fields inside its layout. -/
def fillField (expand : List Char → Except PatternFault (List Char)) (leaf : String)
    (field : Field) : Except PatternFault (List Char) := do
  let found ← value field.place leaf
  let found ← convert field.conversion found
  let layout ← if field.layout.contains '{' then expand field.layout else .ok field.layout
  layOut found layout

/-- A pattern with the name in its fields. A brace that is written twice is text. -/
def fillWith (expand : List Char → Except PatternFault (List Char)) (leaf : String)
    (cs : List Char) : Except PatternFault (List Char) :=
  match cs with
  | [] => .ok []
  | '{' :: '{' :: rest => do return '{' :: (← fillWith expand leaf rest)
  | '}' :: '}' :: rest => do return '}' :: (← fillWith expand leaf rest)
  | ['{'] => .error (.loneBrace '{')
  | '{' :: rest =>
    match _h : readField rest with
    | .error fault => .error fault
    | .ok (field, after) => do
      let text ← fillField expand leaf field
      return text ++ (← fillWith expand leaf after)
  | '}' :: _ => .error (.loneBrace '}')
  | c :: rest => do return c :: (← fillWith expand leaf rest)
  termination_by cs.length
  decreasing_by
    · simp only [List.length_cons]; omega
    · simp only [List.length_cons]; omega
    · exact Nat.lt_succ_of_lt (readField_length _h)
    · exact Nat.lt_succ_self _

/-- Layouts may hold fields, but not their layouts in turn. -/
def fill (pattern leaf : String) : Except PatternFault String :=
  let inner := fillWith (fun _ => .error .tooDeep) leaf
  (fillWith inner leaf pattern.toList).map String.ofList

end Stencil.Pattern
