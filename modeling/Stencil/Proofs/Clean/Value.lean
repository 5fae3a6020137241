import Stencil.Expr.Evaluation
import Stencil.Proofs.Expr.Readers
import Stencil.Proofs.Terminal.Messages

/-!
# Values without escapes

If there is no escape in the values that are bound, and none in an expression, there is none in what
the expression evaluates to, nor in the error that it fails with.
-/

namespace Stencil

/-! ## Values -/

def Raised.Clean : Raised → Prop
  | .absent => True
  | .own _ message => Text.Clean message
  | .other message => Text.Clean message

mutual

/-- No text in the value has an escape in it. -/
inductive Value.Clean : Value → Prop
  | missing : Value.Clean .missing
  | nil : Value.Clean .nil
  | empty : Value.Clean .empty
  | blank : Value.Clean .blank
  | bool (b : Bool) : Value.Clean (.bool b)
  | int (n : Int) : Value.Clean (.int n)
  | float (x : Binary64) : Value.Clean (.float x)
  | text {s : String} : Text.Clean s → Value.Clean (.text s)
  | list {items : List Value} : (∀ v ∈ items, Value.Clean v) → Value.Clean (.list items)
  | tuple {items : List Value} : (∀ v ∈ items, Value.Clean v) → Value.Clean (.tuple items)
  | map {entries : List (Value × Value)} : (∀ entry ∈ entries, Value.Clean entry.1) →
    (∀ entry ∈ entries, Value.Clean entry.2) → Value.Clean (.map entries)
  | range (start stop : Int) : Value.Clean (.range start stop)
  | loop (l : LoopRecord) : Value.Clean (.loop l)
  | object {id : Nat} {className : String} {attributes : List (String × Attribute)} :
    Text.Clean className → (∀ a ∈ attributes, Text.Clean a.1) →
    (∀ a ∈ attributes, Attribute.Clean a.2) → Value.Clean (.object id className attributes)

inductive Attribute.Clean : Attribute → Prop
  | holds {v : Value} : Value.Clean v → Attribute.Clean (.holds v)
  | method : Attribute.Clean .method
  | raises {r : Raised} : r.Clean → Attribute.Clean (.raises r)

end

/-- What a host says of an object without escapes, and what it makes of it, has none either. -/
structure Host.Clean (host : Host) : Prop where
  literal : ∀ v : Value, v.Clean → ∀ text ∈ host.literal? v, Text.Clean text
  badKey : ∀ v : Value, v.Clean → ∀ typeName ∈ host.badKey? v, Text.Clean typeName
  items : ∀ v : Value, v.Clean → ∀ items ∈ host.items? v, ∀ item ∈ items, item.Clean

theorem clean_intText? (n : Int) : ∀ text ∈ intText? n, Text.Clean text := by
  intro text htext
  unfold intText? at htext
  split at htext
  · cases htext
    exact Text.clean_intRepr n
  · cases htext

namespace Value

/-! ## Their texts -/

theorem clean_tupleText {parts : List String} (h : ∀ part ∈ parts, Text.Clean part) :
    Text.Clean (tupleText parts) := by
  unfold tupleText
  split
  · next one =>
    have hone : Text.Clean one := h one List.mem_cons_self
    simp +decide [hone]
  · have hparts := Text.Clean.intercalate (s := ", ") (by decide) h
    simp +decide [hparts]

theorem clean_loopText (l : LoopRecord) : ∀ text ∈ l.text?, Text.Clean text := by
  intro text htext
  obtain ⟨index, hindex, htext⟩ := Option.bind_eq_some_iff.mp htext
  obtain ⟨length, hlength, htext⟩ := Option.bind_eq_some_iff.mp htext
  cases htext
  simp +decide [clean_intText? _ index hindex, clean_intText? _ length hlength]

theorem clean_rangeText (start stop : Int) : ∀ text ∈ rangeText? start stop, Text.Clean text := by
  intro text htext
  obtain ⟨first, hfirst, htext⟩ := Option.bind_eq_some_iff.mp htext
  obtain ⟨last, hlast, htext⟩ := Option.bind_eq_some_iff.mp htext
  cases htext
  simp +decide [clean_intText? _ first hfirst, clean_intText? _ last hlast]

section

variable {host : Host}

mutual

theorem clean_literal? (hhost : host.Clean) {v : Value} (h : v.Clean) :
    ∀ text ∈ v.literal? host, Text.Clean text := by
  intro text htext
  cases h with
  | missing | nil | empty | blank =>
    cases htext
    decide
  | bool b =>
    cases htext
    cases b <;> decide
  | int n => exact clean_intText? n text htext
  | float x =>
    cases htext
    exact x.clean_text
  | text _ =>
    cases htext
    exact Text.clean_quoted _
  | list hitems =>
    obtain ⟨texts, htexts, rfl⟩ := Option.map_eq_some_iff.mp htext
    have hclean := Text.Clean.intercalate (s := ", ") (by decide)
      (clean_literals? hhost hitems texts htexts)
    simp +decide [hclean]
  | tuple hitems =>
    obtain ⟨texts, htexts, rfl⟩ := Option.map_eq_some_iff.mp htext
    exact clean_tupleText (clean_literals? hhost hitems texts htexts)
  | map hkeys hvalues =>
    obtain ⟨texts, htexts, rfl⟩ := Option.map_eq_some_iff.mp htext
    have hclean := Text.Clean.intercalate (s := ", ") (by decide)
      (clean_entryLiterals? hhost hkeys hvalues texts htexts)
    simp +decide [hclean]
  | range start stop => exact clean_rangeText start stop text htext
  | loop l => exact clean_loopText l text htext
  | object hname hnames hattributes =>
    exact hhost.literal _ (.object hname hnames hattributes) text htext

theorem clean_literals? (hhost : host.Clean) {items : List Value} (h : ∀ v ∈ items, v.Clean) :
    ∀ texts ∈ literals? host items, ∀ text ∈ texts, Text.Clean text := by
  intro texts htexts
  cases items with
  | nil =>
    cases htexts
    exact List.forall_mem_nil _
  | cons v vs =>
    obtain ⟨hv, hvs⟩ := List.forall_mem_cons.mp h
    obtain ⟨text, htext, htexts⟩ := Option.bind_eq_some_iff.mp htexts
    obtain ⟨more, hmore, htexts⟩ := Option.bind_eq_some_iff.mp htexts
    cases htexts
    exact List.forall_mem_cons.mpr ⟨clean_literal? hhost hv text htext,
      clean_literals? hhost hvs more hmore⟩

theorem clean_entryLiterals? (hhost : host.Clean) {entries : List (Value × Value)}
    (hkeys : ∀ entry ∈ entries, entry.1.Clean) (hvalues : ∀ entry ∈ entries, entry.2.Clean) :
    ∀ texts ∈ entryLiterals? host entries, ∀ text ∈ texts, Text.Clean text := by
  intro texts htexts
  cases entries with
  | nil =>
    cases htexts
    exact List.forall_mem_nil _
  | cons entry rest =>
    obtain ⟨key, v⟩ := entry
    obtain ⟨hkey, hkeys⟩ := List.forall_mem_cons.mp hkeys
    obtain ⟨hv, hvalues⟩ := List.forall_mem_cons.mp hvalues
    obtain ⟨name, hname, htexts⟩ := Option.bind_eq_some_iff.mp htexts
    obtain ⟨text, htext, htexts⟩ := Option.bind_eq_some_iff.mp htexts
    obtain ⟨more, hmore, htexts⟩ := Option.bind_eq_some_iff.mp htexts
    cases htexts
    refine List.forall_mem_cons.mpr ⟨?_, clean_entryLiterals? hhost hkeys hvalues more hmore⟩
    simp +decide [clean_literal? hhost hkey name hname, clean_literal? hhost hv text htext]

end

end

theorem Clean.typeName {v : Value} (h : v.Clean) : Text.Clean v.typeName := by
  cases h with
  | object hname _ _ => exact hname
  | _ => simp +decide [Value.typeName]

end Value

theorem Host.clean_plain : Host.plain.Clean where
  literal v hv := by
    rintro _ ⟨⟩
    simp +decide [hv.typeName]
  badKey _ _ := nofun
  items _ _ := nofun

namespace Value

/-! ## Their parts -/

def ReadFault.Clean (f : ReadFault) : Prop := Text.Clean f.message

section

variable {host : Host}

mutual

theorem clean_badKeyType? (hhost : host.Clean) {v : Value} (h : v.Clean) :
    ∀ typeName ∈ v.badKeyType? host, Text.Clean typeName := by
  intro typeName htype
  cases h with
  | list _ | map _ _ =>
    cases htype
    decide
  | tuple hitems => exact clean_firstBadKeyType? hhost hitems typeName htype
  | object hname hnames hattributes =>
    exact hhost.badKey _ (.object hname hnames hattributes) typeName htype
  | _ => cases htype

theorem clean_firstBadKeyType? (hhost : host.Clean) {items : List Value}
    (h : ∀ v ∈ items, v.Clean) :
    ∀ typeName ∈ firstBadKeyType? host items, Text.Clean typeName := by
  intro typeName htype
  cases items with
  | nil => cases htype
  | cons v vs =>
    obtain ⟨hv, hvs⟩ := List.forall_mem_cons.mp h
    unfold firstBadKeyType? at htype
    cases hfound : v.badKeyType? host with
    | some found =>
      rw [hfound] at htype
      cases htype
      exact clean_badKeyType? hhost hv _ hfound
    | none =>
      rw [hfound] at htype
      exact clean_firstBadKeyType? hhost hvs typeName htype

end

theorem clean_badKey (hhost : host.Clean) {v : Value} (h : v.Clean) {typeName : String}
    (htype : v.badKeyType? host = some typeName) : ReadFault.Clean (.badKey typeName) := by
  have hclean := clean_badKeyType? hhost h typeName htype
  unfold ReadFault.Clean ReadFault.message
  simp +decide [hclean]

end

variable {v key : Value}

theorem Clean.elements (h : v.Clean) {items : List Value} (hitems : v.elements? = some items) :
    ∀ item ∈ items, item.Clean := by
  cases h with
  | list h | tuple h =>
    cases hitems
    exact h
  | _ => cases hitems

theorem Clean.rangeItems (start stop : Int) : ∀ item ∈ rangeItems start stop, item.Clean := by
  intro item hitem
  obtain ⟨i, -, rfl⟩ := List.mem_map.mp hitem
  exact .int _

theorem yields_items {host : Host} (hhost : host.Clean) (h : v.Clean) :
    Yields (fun _ => True) (fun items : List Value => ∀ item ∈ items, item.Clean)
      (v.items? host) := by
  have hsingle : ∀ w : Value, w.Clean → ∀ item ∈ [w], item.Clean := fun w hw =>
    List.forall_mem_singleton.mpr hw
  cases h with
  | nil => exact List.forall_mem_nil _
  | @text s h =>
    show ∀ item ∈ (if s.isEmpty then [] else [Value.text s]), item.Clean
    split
    · exact List.forall_mem_nil _
    · exact hsingle _ (.text h)
  | list h | tuple h => exact h
  | map hkeys hvalues =>
    intro item hitem
    obtain ⟨entry, hentry, rfl⟩ := List.mem_map.mp hitem
    refine .list (List.forall_mem_cons.mpr ⟨hkeys entry hentry, ?_⟩)
    exact hsingle _ (hvalues entry hentry)
  | range start stop =>
    unfold items? rangeItems?
    dsimp only
    split_ifs
    · trivial
    · trivial
    · exact Clean.rangeItems start stop
  | missing | empty | blank => exact hsingle _ (by constructor)
  | bool b => exact hsingle _ (.bool b)
  | int n => exact hsingle _ (.int n)
  | float x => exact hsingle _ (.float x)
  | loop l => exact hsingle _ (.loop l)
  | @object id _ _ hname hnames hattributes =>
    have hv : (Value.object id _ _).Clean := .object hname hnames hattributes
    unfold items?
    dsimp only
    cases hfound : host.items? _ with
    | some items => exact hhost.items _ hv items hfound
    | none => exact hsingle _ hv

theorem Clean.lookup {host : Host} {entries : List (Value × Value)}
    (h : ∀ entry ∈ entries, entry.2.Clean) (hv : lookup host key entries = some v) : v.Clean := by
  obtain ⟨entry, hfind, rfl⟩ := Option.map_eq_some_iff.mp hv
  exact h entry (List.mem_of_find?_eq_some hfind)

theorem Clean.getD {found : Option Value} {default : Value} (h : ∀ v ∈ found, v.Clean)
    (hdefault : default.Clean) : (found.getD default).Clean := by
  cases found with
  | none => exact hdefault
  | some v => exact h v rfl

theorem mem_of_elementAt? {α : Type} {items : List α} {place : Int} {a : α}
    (h : elementAt? items place = some a) : a ∈ items := by
  unfold elementAt? at h
  dsimp only at h
  generalize (if place < 0 then place + items.length else place) = i at h
  split at h
  · cases h
  · exact List.mem_of_getElem? h

theorem mem_of_lookup {α : Type} {entries : List (String × α)} {name : String} {a : α}
    (h : entries.lookup name = some a) : (name, a) ∈ entries := by
  obtain ⟨before, after, rfl, -⟩ := List.lookup_eq_some_iff.mp h
  exact List.mem_append_right _ List.mem_cons_self

theorem yields_readAttribute {attributes : List (String × Attribute)}
    (h : ∀ a ∈ attributes, a.2.Clean) (name : String) :
    Yields ReadFault.Clean Value.Clean (readAttribute attributes name) := by
  unfold readAttribute
  split
  · exact .missing
  · have hfound : ∀ a, attributes.lookup name = some a → a.Clean :=
      fun a ha => h _ (mem_of_lookup ha)
    split
    · next w heq =>
      cases hfound _ heq with
      | holds hw => exact hw
    · exact .missing
    · exact .missing
    · next kind message heq =>
      cases hfound _ heq with
      | raises hr => exact hr
    · next message heq =>
      cases hfound _ heq with
      | raises hr => exact hr
    · exact .missing

theorem Clean.readNamedElement {items : List Value} (h : ∀ item ∈ items, item.Clean)
    (name : String) : (readNamedElement items name).Clean := by
  unfold Value.readNamedElement
  split
  · exact .int _
  · exact .getD (fun v hv => h v (List.mem_of_head? hv)) .nil
  · exact .getD (fun v hv => h v (List.mem_of_getLast? hv)) .nil
  · exact .missing

theorem Clean.readLoop (l : LoopRecord) (name : String) : (readLoop l name).Clean := by
  unfold Value.readLoop
  split <;> first | exact .int _ | exact .bool _ | exact .missing

theorem Clean.readRange (start stop : Int) (name : String) : (readRange start stop name).Clean := by
  unfold Value.readRange
  split <;> first | exact .int _ | exact .missing

theorem yields_readNamed (h : v.Clean) (name : String) :
    Yields ReadFault.Clean Value.Clean (v.readNamed name) := by
  cases h with
  | list h | tuple h => exact Clean.readNamedElement h name
  | text _ | map _ _ =>
    unfold readNamed
    split_ifs
    · exact .int _
    · exact .missing
  | range start stop => exact Clean.readRange start stop name
  | loop l => exact Clean.readLoop l name
  | object _ _ h => exact yields_readAttribute h name
  | _ => exact .missing

theorem Clean.readPlace (h : v.Clean) (place : Int) : (v.readPlace place).Clean := by
  cases h with
  | list h | tuple h => exact .getD (fun v hv => h v (mem_of_elementAt? hv)) .missing
  | text h =>
    unfold Value.readPlace
    dsimp only
    split
    · next c hc => exact .text (.singleton (h.ne (mem_of_elementAt? hc)))
    · exact .missing
  | _ => exact .missing

theorem yields_readKey (h : v.Clean) : Yields ReadFault.Clean Value.Clean (v.readKey key) := by
  unfold readKey
  split
  · exact yields_readNamed h _
  · exact h.readPlace _
  · exact .missing

theorem yields_read {host : Host} (hhost : host.Clean) (h : v.Clean) (hkey : key.Clean) :
    Yields ReadFault.Clean Value.Clean (v.read host key) := by
  unfold read
  split
  · next entries =>
    split
    · next typeName heq => exact clean_badKey hhost hkey heq
    · split
      · next found hfound =>
        cases h with
        | map _ hvalues => exact Clean.lookup hvalues hfound
      · exact yields_readKey h
  · exact yields_readKey h

end Value

/-! ## Scopes -/

def Frame.Clean (frame : Frame) : Prop := ∀ b ∈ frame, Text.Clean b.1 ∧ b.2.Clean

namespace Frame.Clean

variable {frame : Frame}

theorem bind (h : frame.Clean) {name : String} {v : Value} (hname : Text.Clean name)
    (hv : v.Clean) : (frame.bind name v).Clean := by
  induction frame with
  | nil => exact List.forall_mem_singleton.mpr ⟨hname, hv⟩
  | cons b rest ih =>
    obtain ⟨hb, hrest⟩ := List.forall_mem_cons.mp h
    unfold Frame.bind
    split
    · exact List.forall_mem_cons.mpr ⟨⟨hname, hv⟩, hrest⟩
    · exact List.forall_mem_cons.mpr ⟨hb, ih hrest⟩

theorem merge (h : frame.Clean) {later : Frame} (hlater : later.Clean) :
    (frame.merge later).Clean := by
  induction later generalizing frame with
  | nil => exact h
  | cons b rest ih =>
    obtain ⟨⟨hname, hv⟩, hrest⟩ := List.forall_mem_cons.mp hlater
    exact ih (h.bind hname hv) hrest

end Frame.Clean

def Scope.Clean (s : Scope) : Prop := ∀ frame ∈ s.frames, Frame.Clean frame

namespace Scope.Clean

variable {s : Scope}

theorem push (h : s.Clean) : (s.push []).Clean :=
  List.forall_mem_cons.mpr ⟨List.forall_mem_nil _, h⟩

theorem dropTop (h : s.Clean) : s.dropTop.Clean := by
  unfold Scope.dropTop
  split
  · exact h
  · next next rest heq =>
    intro frame hframe
    refine h frame ?_
    rw [frames, heq]
    exact List.mem_cons_of_mem _ hframe

theorem bind (h : s.Clean) {name : String} {v : Value} (hname : Text.Clean name)
    (hv : v.Clean) : (s.bind name v).Clean := by
  obtain ⟨htop, hbelow⟩ := List.forall_mem_cons.mp h
  exact List.forall_mem_cons.mpr ⟨htop.bind hname hv, hbelow⟩

theorem advance (h : s.Clean) (owner : LoopOwner) (index0 : Int) :
    (s.advance owner index0).Clean := by
  obtain ⟨htop, hbelow⟩ := List.forall_mem_cons.mp h
  refine List.forall_mem_cons.mpr ⟨?_, hbelow⟩
  intro b hb
  obtain ⟨⟨name, v⟩, hmem, rfl⟩ := List.mem_map.mp hb
  obtain ⟨hname, hv⟩ := htop _ hmem
  cases v with
  | loop l => exact ⟨hname, .loop _⟩
  | _ => exact ⟨hname, hv⟩

theorem find (h : s.Clean) (name : String) : (s.find name).Clean := by
  refine Value.Clean.getD (fun v hv => ?_) .missing
  obtain ⟨frame, hframe, hlookup⟩ := List.exists_of_findSome?_eq_some hv
  exact (h frame hframe _ (Value.mem_of_lookup hlookup)).2

theorem names (h : s.Clean) : ∀ name ∈ s.names, Text.Clean name := by
  intro name hname
  obtain ⟨frame, hframe, hname⟩ := List.mem_flatMap.mp (List.mem_eraseDups.mp hname)
  obtain ⟨b, hb, rfl⟩ := List.mem_map.mp hname
  exact (h frame hframe b hb).1

end Scope.Clean

theorem Scope.clean_ofBases {bases : List Frame} (h : ∀ frame ∈ bases, frame.Clean) :
    (Scope.ofBases bases).Clean := by
  have hfold : ∀ frame : Frame, frame.Clean → (bases.foldl Frame.merge frame).Clean := by
    induction bases with
    | nil => exact fun frame hframe => hframe
    | cons base bases ih =>
      obtain ⟨hbase, hbases⟩ := List.forall_mem_cons.mp h
      exact fun frame hframe => ih hbases _ (hframe.merge hbase)
  have hempty : Frame.Clean [] := List.forall_mem_nil _
  exact List.forall_mem_singleton.mpr (hfold [] hempty)

end Stencil
