import Stencil.Value.Host

/-! # Equality of values -/

namespace Stencil.Value

/-! ## The two keywords -/

/-- What `empty` equals: text, lists, tuples and maps without content. -/
def isEmptyContainer : Value → Bool
  | .text s => s.isEmpty
  | .list items => items.isEmpty
  | .tuple items => items.isEmpty
  | .map entries => entries.isEmpty
  | _ => false

/-- What `blank` equals: the same, and nil and blank text. -/
def isBlankContainer : Value → Bool
  | .nil => true
  | .text s => Text.allBlank s
  | v => v.isEmptyContainer

def isKeyword : Value → Bool
  | .empty => true
  | .blank => true
  | _ => false

/-! ## Numbers and ranges -/

def equalNumbers (v w : Value) : Bool :=
  match v.number?, w.number? with
  | some x, some y => x.compare? y = some .eq
  | _, _ => false

/-- Ranges are equal as sequences. -/
def equalRanges (start stop start' stop' : Int) : Bool :=
  rangeLength start stop = rangeLength start' stop' &&
    (rangeLength start stop = 0 || start = start')

section

variable (host : Host)

/-! ## Keys -/

mutual

/--
Two values are the same key of a map. The keyword `empty` shares its key with the empty text, and
lists and maps are no keys.
-/
def isSameKey (v : Value) : Value → Bool := fun w =>
  if v.isObject || w.isObject then isSameSingle v w || host.equals v w
  else match v with
  | .missing => (w matches .missing)
  | .nil => (w matches .nil)
  | .empty => match w with
    | .empty => true
    | .text t => t.isEmpty
    | _ => false
  | .blank => (w matches .blank)
  | .bool _ => equalNumbers v w
  | .int _ => equalNumbers v w
  | .float _ => isSameSingle v w || equalNumbers v w
  | .text s => match w with
    | .text t => s = t
    | .empty => s.isEmpty
    | _ => false
  | .tuple items => match w with
    | .tuple items' => areSameKeys items items'
    | _ => false
  | .range start stop => match w with
    | .range start' stop' => equalRanges start stop start' stop'
    | _ => false
  | .loop l => match w with
    | .loop l' => l.owner = l'.owner
    | _ => false
  | .list _ => false
  | .map _ => false
  | .object .. => false

def areSameKeys : List Value → List Value → Bool
  | [], [] => true
  | v :: vs, w :: ws => isSameKey v w && areSameKeys vs ws
  | _, _ => false

end

/-! ## Equality -/

mutual

/--
Equality of values. Numbers of every type compare by size, loop records by identity, maps without
regard to order. The keywords equal no host object; beside any other value the object decides.
-/
def equals (v : Value) : Value → Bool := fun w =>
  if v.isObject || (w.isObject && !v.isKeyword) then host.equals v w
  else match v with
  | .missing => (w matches .missing)
  | .nil => match w with
    | .nil => true
    | .blank => true
    | _ => false
  | .empty => w.isEmptyContainer
  | .blank => w.isBlankContainer
  | .bool _ => equalNumbers v w
  | .int _ => equalNumbers v w
  | .float _ => equalNumbers v w
  | .text s => match w with
    | .text t => s = t
    | .empty => v.isEmptyContainer
    | .blank => v.isBlankContainer
    | _ => false
  | .list items => match w with
    | .list items' => areSame items items'
    | .empty => items.isEmpty
    | .blank => items.isEmpty
    | _ => false
  | .tuple items => match w with
    | .tuple items' => areSame items items'
    | .empty => items.isEmpty
    | .blank => items.isEmpty
    | _ => false
  | .map entries => match w with
    | .map entries' => entries.length = entries'.length && areEntriesOf entries entries'
    | .empty => entries.isEmpty
    | .blank => entries.isEmpty
    | _ => false
  | .range start stop => match w with
    | .range start' stop' => equalRanges start stop start' stop'
    | _ => false
  | .loop l => match w with
    | .loop l' => l.owner = l'.owner
    | _ => false
  | .object .. => false

/-- Inside lists, tuples and maps a value also equals itself. -/
def areSame : List Value → List Value → Bool
  | [], [] => true
  | v :: vs, w :: ws => (isSameSingle v w || equals v w) && areSame vs ws
  | _, _ => false

/-- Each entry stands in the other map, under the same key. -/
def areEntriesOf : List (Value × Value) → List (Value × Value) → Bool
  | [], _ => true
  | (key, v) :: rest, others =>
    others.any (fun (key', w) => isSameKey host key key' && (isSameSingle v w || equals v w)) &&
      areEntriesOf rest others

end

/-- The same value, or an equal one. -/
def isSame (v w : Value) : Bool := isSameSingle v w || equals host v w

/-! ## Maps -/

def lookup (key : Value) (entries : List (Value × Value)) : Option Value :=
  (entries.find? fun (key', _) => isSameKey host key key').map (·.2)

/-- A key keeps its first place and takes its last value. -/
def insertEntry (entries : List (Value × Value)) (key v : Value) : List (Value × Value) :=
  if entries.any fun (key', _) => isSameKey host key key' then
    entries.map fun (key', v') => if isSameKey host key key' then (key', v) else (key', v')
  else entries ++ [(key, v)]

def mapOfEntries (entries : List (Value × Value)) : Value :=
  .map (entries.foldl (fun m (key, v) => insertEntry host m key v) [])

mutual

/-- The type of the first part of a value that can be no key of a map. -/
def badKeyType? : Value → Option String
  | .list _ => some "list"
  | .map _ => some "dict"
  | .tuple items => firstBadKeyType? items
  | .object id className attributes => host.badKey? (.object id className attributes)
  | _ => none

def firstBadKeyType? : List Value → Option String
  | [] => none
  | v :: vs => (badKeyType? v).orElse fun _ => firstBadKeyType? vs

end

end

end Stencil.Value
