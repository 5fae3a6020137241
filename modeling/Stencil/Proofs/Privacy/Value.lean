import Stencil.Value.Order
import Stencil.Value.Printing
import Stencil.Value.Reading
import Stencil.Value.Whole

/-!
# What templates see of a value

An attribute is private if its name starts with an underscore. No operation on values tells a value
from what is left of it without the private attributes of the objects in it, as long as the classes
of the host do not. The keys of maps are no attributes, and all of them are left.
-/

namespace Stencil

def isPrivate (name : String) : Bool := name.toList.head? = some '_'

mutual

/-- The value without the private attributes of the objects in it. -/
def Value.visible : Value → Value
  | .list items => .list (visibleItems items)
  | .tuple items => .tuple (visibleItems items)
  | .map entries => .map (visibleEntries entries)
  | .object id className attributes => .object id className (visibleAttributes attributes)
  | v => v

def visibleItems : List Value → List Value
  | [] => []
  | v :: vs => v.visible :: visibleItems vs

def visibleEntries : List (Value × Value) → List (Value × Value)
  | [] => []
  | (key, v) :: rest => (key.visible, v.visible) :: visibleEntries rest

def visibleAttributes : List (String × Attribute) → List (String × Attribute)
  | [] => []
  | (name, a) :: rest =>
    if isPrivate name then visibleAttributes rest else (name, a.visible) :: visibleAttributes rest

def Attribute.visible : Attribute → Attribute
  | .holds v => .holds v.visible
  | a => a

end

/-- What the methods of a host answer does not depend on private attributes. -/
structure Host.IsDiscreet (host : Host) : Prop where
  text (v : Value) : host.text? v.visible = host.text? v
  literal (v : Value) : host.literal? v.visible = host.literal? v
  equals (v w : Value) : host.equals v.visible w.visible = host.equals v w
  compare (c : Value.Comparison) (v w : Value) :
    host.compare? c v.visible w.visible = host.compare? c v w
  badKey (v : Value) : host.badKey? v.visible = host.badKey? v
  whole (v : Value) : host.whole? v.visible = host.whole? v
  items (v : Value) : host.items? v.visible = (host.items? v).map (List.map Value.visible)

theorem visibleItems_eq_map (items : List Value) :
    visibleItems items = items.map Value.visible := by
  induction items with
  | nil => rfl
  | cons v vs ih => rw [visibleItems, ih, List.map_cons]

theorem visibleEntries_eq_map (entries : List (Value × Value)) :
    visibleEntries entries = entries.map fun (key, v) => (key.visible, v.visible) := by
  induction entries with
  | nil => rfl
  | cons entry rest ih =>
    obtain ⟨key, v⟩ := entry
    rw [visibleEntries, ih, List.map_cons]

theorem lookup_cons_eq_ite {α : Type} (name name' : String) (a : α) (rest : List (String × α)) :
    ((name', a) :: rest).lookup name = if name = name' then some a else rest.lookup name := by
  rw [List.lookup_cons]
  by_cases h : name = name'
  · simp [h]
  · simp [h, beq_false_of_ne h]

namespace Value

/-! ## One value -/

section

variable {host : Host} (v w : Value)

@[simp] theorem isTruthy_visible : v.visible.isTruthy = v.isTruthy := by cases v <;> rfl

@[simp] theorem typeName_visible : v.visible.typeName = v.typeName := by cases v <;> rfl

@[simp] theorem number?_visible : v.visible.number? = v.number? := by cases v <;> rfl

@[simp] theorem isObject_visible : v.visible.isObject = v.isObject := by cases v <;> rfl

@[simp] theorem isKeyword_visible : v.visible.isKeyword = v.isKeyword := by cases v <;> rfl

theorem whole?_visible (hhost : host.IsDiscreet) : v.visible.whole? host = v.whole? host := by
  cases v with
  | object id className attributes => exact hhost.whole (.object id className attributes)
  | _ => rfl

@[simp] theorem isEmptyContainer_visible : v.visible.isEmptyContainer = v.isEmptyContainer := by
  cases v <;>
    simp [visible, isEmptyContainer, visibleItems_eq_map, visibleEntries_eq_map, List.isEmpty_map]

@[simp] theorem isBlankContainer_visible : v.visible.isBlankContainer = v.isBlankContainer := by
  cases v <;>
    simp [visible, isBlankContainer, isEmptyContainer, visibleItems_eq_map, visibleEntries_eq_map]

theorem elements?_visible : v.visible.elements? = v.elements?.map (List.map visible) := by
  cases v <;> simp [visible, elements?, visibleItems_eq_map]

@[simp] theorem visible_eq_missing : v.visible = .missing ↔ v = .missing := by
  cases v <;> simp [visible]

@[simp] theorem visible_eq_nil : v.visible = .nil ↔ v = .nil := by cases v <;> simp [visible]

@[simp] theorem visible_eq_text (s : String) : v.visible = .text s ↔ v = .text s := by
  cases v <;> simp [visible]

end

/-! ## Text -/

section

variable {host : Host}

mutual

theorem literal?_visible (hhost : host.IsDiscreet) (v : Value) :
    v.visible.literal? host = v.literal? host := by
  cases v with
  | list items => simp only [visible, literal?, literals?_visibleItems hhost items]
  | tuple items => simp only [visible, literal?, literals?_visibleItems hhost items]
  | map entries => simp only [visible, literal?, entryLiterals?_visibleEntries hhost entries]
  | object id className attributes => exact hhost.literal (.object id className attributes)
  | _ => rfl

theorem literals?_visibleItems (hhost : host.IsDiscreet) (items : List Value) :
    literals? host (visibleItems items) = literals? host items := by
  cases items with
  | nil => rfl
  | cons v vs =>
    simp only [visibleItems, literals?, literal?_visible hhost v, literals?_visibleItems hhost vs]

theorem entryLiterals?_visibleEntries (hhost : host.IsDiscreet) (entries : List (Value × Value)) :
    entryLiterals? host (visibleEntries entries) = entryLiterals? host entries := by
  match entries with
  | [] => rfl
  | (key, v) :: rest =>
    simp only [visibleEntries, entryLiterals?, literal?_visible hhost key, literal?_visible hhost v,
      entryLiterals?_visibleEntries hhost rest]

end

theorem display?_visible (hhost : host.IsDiscreet) (v : Value) :
    v.visible.display? host = v.display? host := by
  have h := literal?_visible hhost v
  cases v with
  | text => rfl
  | object id className attributes => exact hhost.text (.object id className attributes)
  | _ => exact h

mutual

theorem output?_visible (hhost : host.IsDiscreet) (v : Value) :
    v.visible.output? host = v.output? host := by
  have h := display?_visible hhost v
  cases v with
  | list items => simp only [visible, output?, outputs?_visibleItems hhost items]
  | tuple items => simp only [visible, output?, outputs?_visibleItems hhost items]
  | nil | bool => rfl
  | _ => exact h

theorem outputs?_visibleItems (hhost : host.IsDiscreet) (items : List Value) :
    outputs? host (visibleItems items) = outputs? host items := by
  cases items with
  | nil => rfl
  | cons v vs => simp only [visibleItems, outputs?, output?_visible hhost v,
    outputs?_visibleItems hhost vs]

end

end

/-! ## Two values -/

@[simp] theorem isSameSingle_visible (v w : Value) :
    isSameSingle v.visible w.visible = isSameSingle v w := by
  cases v with
  | float x => cases x <;> cases w <;> rfl
  | empty | blank | object => cases w <;> rfl
  | _ => rfl

@[simp] theorem equalNumbers_visible (v w : Value) :
    equalNumbers v.visible w.visible = equalNumbers v w := by
  unfold equalNumbers
  rw [number?_visible, number?_visible]

@[simp] theorem isEmpty_visibleItems (items : List Value) :
    (visibleItems items).isEmpty = items.isEmpty := by
  rw [visibleItems_eq_map, List.isEmpty_map]

@[simp] theorem isEmpty_visibleEntries (entries : List (Value × Value)) :
    (visibleEntries entries).isEmpty = entries.isEmpty := by
  rw [visibleEntries_eq_map, List.isEmpty_map]

@[simp] theorem length_visibleEntries (entries : List (Value × Value)) :
    (visibleEntries entries).length = entries.length := by
  rw [visibleEntries_eq_map, List.length_map]

section

variable {host : Host}

mutual

theorem isSameKey_visible (hhost : host.IsDiscreet) (v w : Value) :
    isSameKey host v.visible w.visible = isSameKey host v w := by
  unfold isSameKey
  rw [isObject_visible, isObject_visible, isSameSingle_visible, hhost.equals]
  split
  · rfl
  · next hobject =>
    have hnumbers := equalNumbers_visible v w
    cases v with
    | bool | int => exact hnumbers
    | float x => exact congrArg (isSameSingle (.float x) w || ·) hnumbers
    | tuple items =>
      cases w with
      | tuple items' => exact areSameKeys_visibleItems hhost items items'
      | _ => rfl
    | _ => cases w <;> rfl

theorem areSameKeys_visibleItems (hhost : host.IsDiscreet) (vs ws : List Value) :
    areSameKeys host (visibleItems vs) (visibleItems ws) = areSameKeys host vs ws := by
  cases vs with
  | nil => cases ws <;> rfl
  | cons v vs =>
    cases ws with
    | nil => rfl
    | cons w ws =>
      simp only [visibleItems, areSameKeys, isSameKey_visible hhost v w,
        areSameKeys_visibleItems hhost vs ws]

end

mutual

theorem equals_visible (hhost : host.IsDiscreet) (v w : Value) :
    equals host v.visible w.visible = equals host v w := by
  unfold equals
  rw [isObject_visible, isObject_visible, isKeyword_visible, hhost.equals]
  split
  · rfl
  · next hobject =>
    have hnumbers := equalNumbers_visible v w
    cases v with
    | empty => exact isEmptyContainer_visible w
    | blank => exact isBlankContainer_visible w
    | bool | int | float => exact hnumbers
    | list items =>
      have hsame := areSame_visibleItems hhost items
      cases w with
      | list items' => exact hsame items'
      | empty | blank => exact isEmpty_visibleItems items
      | _ => rfl
    | tuple items =>
      have hsame := areSame_visibleItems hhost items
      cases w with
      | tuple items' => exact hsame items'
      | empty | blank => exact isEmpty_visibleItems items
      | _ => rfl
    | map entries =>
      have hentries := areEntriesOf_visibleEntries hhost entries
      cases w with
      | map entries' => simp only [visible, length_visibleEntries, hentries entries']
      | empty | blank => exact isEmpty_visibleEntries entries
      | _ => rfl
    | _ => cases w <;> rfl

theorem areSame_visibleItems (hhost : host.IsDiscreet) (vs ws : List Value) :
    areSame host (visibleItems vs) (visibleItems ws) = areSame host vs ws := by
  cases vs with
  | nil => cases ws <;> rfl
  | cons v vs =>
    cases ws with
    | nil => rfl
    | cons w ws =>
      simp only [visibleItems, areSame, isSameSingle_visible, equals_visible hhost v w,
        areSame_visibleItems hhost vs ws]

theorem areEntriesOf_visibleEntries (hhost : host.IsDiscreet) (entries others : List
    (Value × Value)) :
    areEntriesOf host (visibleEntries entries) (visibleEntries others) =
      areEntriesOf host entries others := by
  match entries with
  | [] => rfl
  | (key, v) :: rest =>
    have hany : ((visibleEntries others).any fun (key', w) =>
        isSameKey host key.visible key' &&
          (isSameSingle v.visible w || equals host v.visible w)) =
        others.any fun (key', w) =>
          isSameKey host key key' && (isSameSingle v w || equals host v w) := by
      rw [visibleEntries_eq_map, List.any_map]
      congr 1
      funext (key', w)
      simp only [Function.comp, isSameKey_visible hhost, isSameSingle_visible,
        equals_visible hhost v w]
    simp only [visibleEntries, areEntriesOf, hany, areEntriesOf_visibleEntries hhost rest others]

end

theorem isSame_visible (hhost : host.IsDiscreet) (v w : Value) :
    isSame host v.visible w.visible = isSame host v w := by
  unfold isSame
  rw [isSameSingle_visible, equals_visible hhost]

mutual

theorem compare?_visible (hhost : host.IsDiscreet) (c : Comparison) (v w : Value) :
    compare? host c v.visible w.visible = compare? host c v w := by
  have hnumbers : compareNumbers? c v.visible w.visible = compareNumbers? c v w := by
    unfold compareNumbers?
    rw [number?_visible, number?_visible]
  unfold compare?
  rw [isObject_visible, isObject_visible, hhost.compare]
  split
  · rfl
  · next hobject =>
    cases v with
    | bool | int | float => exact hnumbers
    | list items =>
      have hitems := compareItems?_visibleItems hhost c items
      cases w with
      | list items' => exact hitems items'
      | _ => rfl
    | tuple items =>
      have hitems := compareItems?_visibleItems hhost c items
      cases w with
      | tuple items' => exact hitems items'
      | _ => rfl
    | _ => cases w <;> rfl

theorem compareItems?_visibleItems (hhost : host.IsDiscreet) (c : Comparison) (vs ws : List Value) :
    compareItems? host c (visibleItems vs) (visibleItems ws) = compareItems? host c vs ws := by
  cases vs with
  | nil => cases ws <;> rfl
  | cons v vs =>
    cases ws with
    | nil => rfl
    | cons w ws =>
      simp only [visibleItems, compareItems?, isSame_visible hhost, compare?_visible hhost c v w,
        compareItems?_visibleItems hhost c vs ws]

end

end

/-! ## Parts of values -/

section

variable {host : Host}

theorem lookup_visible (hhost : host.IsDiscreet) (key : Value) (entries : List (Value × Value)) :
    lookup host key.visible (visibleEntries entries) = (lookup host key entries).map visible := by
  unfold lookup
  rw [visibleEntries_eq_map, List.find?_map]
  simp only [Function.comp_def, isSameKey_visible hhost, Option.map_map]

mutual

theorem badKeyType?_visible (hhost : host.IsDiscreet) (v : Value) :
    v.visible.badKeyType? host = v.badKeyType? host := by
  cases v with
  | tuple items => exact firstBadKeyType?_visibleItems hhost items
  | object id className attributes => exact hhost.badKey (.object id className attributes)
  | _ => rfl

theorem firstBadKeyType?_visibleItems (hhost : host.IsDiscreet) (items : List Value) :
    firstBadKeyType? host (visibleItems items) = firstBadKeyType? host items := by
  cases items with
  | nil => rfl
  | cons v vs =>
    simp only [visibleItems, firstBadKeyType?, badKeyType?_visible hhost v,
      firstBadKeyType?_visibleItems hhost vs]

end

theorem contains?_visible (hhost : host.IsDiscreet) (v w : Value) :
    v.visible.contains? host w.visible = v.contains? host w := by
  have hitems : ∀ items, ((visibleItems items).any (isSame host · w.visible)) =
      items.any (isSame host · w) := by
    intro items
    rw [visibleItems_eq_map, List.any_map]
    simp only [Function.comp_def, isSame_visible hhost]
  cases v with
  | list items => exact congrArg some (hitems items)
  | tuple items => exact congrArg some (hitems items)
  | map entries =>
    simp only [visible, contains?, badKeyType?_visible hhost, lookup_visible hhost,
      Option.isSome_map]
  | text s => cases w <;> rfl
  | _ => rfl

end

theorem lookup_visibleAttributes {name : String} (h : isPrivate name = false)
    (attributes : List (String × Attribute)) :
    (visibleAttributes attributes).lookup name =
      (attributes.lookup name).map Attribute.visible := by
  match attributes with
  | [] => rfl
  | (name', a) :: rest =>
    have ih := lookup_visibleAttributes h rest
    rw [visibleAttributes, lookup_cons_eq_ite]
    by_cases hname : name = name'
    · subst hname
      simp [h]
    · rw [if_neg hname, ← ih]
      split
      · rfl
      · rw [lookup_cons_eq_ite, if_neg hname]

/-- A name is looked at before the object is asked for it. -/
theorem readAttribute_visibleAttributes (attributes : List (String × Attribute)) (name : String) :
    readAttribute (visibleAttributes attributes) name =
      (readAttribute attributes name).map visible := by
  unfold readAttribute
  by_cases h : name.toList.head? = some '_'
  · rw [if_pos h, if_pos h]
    rfl
  · rw [if_neg h, if_neg h, lookup_visibleAttributes (decide_eq_false h)]
    cases attributes.lookup name with
    | none => rfl
    | some a =>
      cases a with
      | holds v => rfl
      | method => rfl
      | raises r => cases r <;> rfl

theorem readNamedElement_visibleItems (items : List Value) (name : String) :
    readNamedElement (visibleItems items) name = (readNamedElement items name).visible := by
  rw [visibleItems_eq_map]
  unfold readNamedElement
  split
  · rw [List.length_map]
    rfl
  · rw [List.head?_map]
    cases items.head? <;> rfl
  · rw [List.getLast?_map]
    cases items.getLast? <;> rfl
  · rfl

theorem readNamed_visible (v : Value) (name : String) :
    v.visible.readNamed name = (v.readNamed name).map visible := by
  cases v with
  | list items => exact congrArg Except.ok (readNamedElement_visibleItems items name)
  | tuple items => exact congrArg Except.ok (readNamedElement_visibleItems items name)
  | text s =>
    simp only [visible, readNamed]
    split <;> rfl
  | map entries =>
    simp only [visible, readNamed, length_visibleEntries]
    split <;> rfl
  | range start stop =>
    simp only [visible, readNamed, readRange]
    split <;> rfl
  | loop l =>
    simp only [visible, readNamed, readLoop]
    split <;> rfl
  | object id className attributes => exact readAttribute_visibleAttributes attributes name
  | _ => rfl

theorem elementAt?_visibleItems (items : List Value) (place : Int) :
    elementAt? (visibleItems items) place = (elementAt? items place).map visible := by
  rw [visibleItems_eq_map]
  unfold elementAt?
  rw [List.length_map]
  dsimp only
  generalize (if place < 0 then place + (items.length : Int) else place) = i
  split
  · rfl
  · rw [List.getElem?_map]

theorem readPlace_visible (v : Value) (place : Int) :
    v.visible.readPlace place = (v.readPlace place).visible := by
  cases v with
  | list items =>
    simp only [visible, readPlace, elementAt?_visibleItems]
    cases elementAt? items place <;> rfl
  | tuple items =>
    simp only [visible, readPlace, elementAt?_visibleItems]
    cases elementAt? items place <;> rfl
  | text s =>
    simp only [visible, readPlace]
    split <;> rfl
  | _ => rfl

theorem readKey_visible (v key : Value) :
    v.visible.readKey key.visible = (v.readKey key).map visible := by
  cases key with
  | text name => exact readNamed_visible v name
  | int place => exact congrArg Except.ok (readPlace_visible v place)
  | _ => rfl

theorem read_visible {host : Host} (hhost : host.IsDiscreet) (v key : Value) :
    v.visible.read host key.visible = (v.read host key).map visible := by
  cases v with
  | map entries =>
    have hread := readKey_visible (.map entries) key
    simp only [visible, read, badKeyType?_visible hhost, lookup_visible hhost] at hread ⊢
    cases key.badKeyType? host with
    | some typeName => rfl
    | none =>
      cases lookup host key entries with
      | some found => rfl
      | none => exact hread
  | _ => exact readKey_visible _ key

theorem map_visible_rangeItems (start stop : Int) :
    (rangeItems start stop).map visible = rangeItems start stop := by
  unfold rangeItems
  rw [List.map_map]
  rfl

theorem items?_visible {host : Host} (hhost : host.IsDiscreet) (v : Value) :
    v.visible.items? host = (v.items? host).map (List.map visible) := by
  cases v with
  | list items => exact congrArg Except.ok (visibleItems_eq_map items)
  | tuple items => exact congrArg Except.ok (visibleItems_eq_map items)
  | map entries =>
    simp only [visible, items?, visibleEntries_eq_map, Except.map, List.map_map]
    rfl
  | text s =>
    simp only [visible, items?]
    split <;> rfl
  | range start stop =>
    simp only [visible, items?, rangeItems?]
    split
    · rfl
    · split
      · rfl
      · exact congrArg Except.ok (map_visible_rangeItems start stop).symm
  | object id className attributes =>
    have hitems := hhost.items (.object id className attributes)
    simp only [visible, items?] at hitems ⊢
    rw [hitems]
    cases host.items? (.object id className attributes) <;> rfl
  | _ => rfl

end Value

end Stencil
