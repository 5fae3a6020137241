import Stencil.Proofs.Render.Bindings
import Stencil.Proofs.Render.Closure

/-!
# Loops over the items of a value

A loop lists the items of its value, cuts off what stands before its offset and after its limit, and
turns the rest around if it is reversed. It renders its body once for each item left, all in one
frame. What one rendering leaves there is there for the next, but the item is bound anew, and
wherever the metadata of the loop stands it moves on.
-/

namespace Stencil

open Markup

/-! ## Items -/

/--
The items of a value: none of nil and of the empty text, the pairs of a map in their order, the
elements of a list, a tuple, a range or an object that is a collection, and any other value as the
only one.
-/
def Value.listed (host : Host) : Value → List Value
  | .nil => []
  | .text s => if s = "" then [] else [.text s]
  | .map entries => entries.map fun (key, v) => .list [key, v]
  | .list items => items
  | .tuple items => items
  | .range start stop => rangeItems start stop
  | .object id className attributes =>
    match host.items? (.object id className attributes) with
    | some items => items
    | none => [.object id className attributes]
  | v => [v]

theorem items?_of_fits {v : Value} (hfits : ∀ o, ¬ v.TooMany o) (host : Host) :
    v.items? host = .ok (v.listed host) := by
  cases v with
  | text s =>
    unfold Value.items? Value.listed
    by_cases h : s = "" <;> simp [h]
  | range start stop =>
    have hlong : ¬ Value.maxItems ≤ Value.rangeLength start stop :=
      fun h => hfits _ (.tooLong h)
    have hlarge : ¬ Value.maxItems ≤ Value.itemBytes * Value.rangeLength start stop :=
      fun h => hfits _ (.tooLarge (Nat.lt_of_not_le hlong) h)
    exact (if_neg hlong).trans (if_neg hlarge)
  | object id className attributes =>
    cases hitems : host.items? (.object id className attributes) <;>
      simp [Value.items?, Value.listed, hitems]
  | _ => rfl

/-- What is left of items after an offset and up to a limit, turned around where it is reversed. -/
def chosen (items : List Value) (offset limit : Option Int) (isReversed : Bool) : List Value :=
  let rest := items.drop (max (offset.getD 0) 0).toNat
  let kept := match limit with
    | some n => rest.take (max n 0).toNat
    | none => rest
  if isReversed then kept.reverse else kept

/-! ## Metadata -/

/-- The metadata of one loop at another position; any other value as it is. -/
def Value.movedOn (owner : LoopOwner) (index0 : Int) : Value → Value
  | .loop l => .loop (if l.owner = owner then { l with index0 := index0 } else l)
  | v => v

/-- What the metadata says at a position of so many, counted from zero. -/
def positionEntries (k n : Nat) : List (String × Value) :=
  [("index", .int (k + 1)), ("index0", .int k), ("rindex", .int (n - k)),
    ("rindex0", .int (n - k - 1)), ("first", .bool (k = 0)), ("last", .bool ((k : Int) = n - 1)),
    ("length", .int n)]

theorem read_position (host : Host) (owner : LoopOwner) (k n : Nat) :
    ∀ entry ∈ positionEntries k n,
      (Value.loop ⟨owner, k, n⟩).read host (.text entry.1) = .ok entry.2 := by
  have hfirst : LoopRecord.first ⟨owner, k, n⟩ = decide (k = 0) := by
    simp [LoopRecord.first]
  simp only [positionEntries, List.forall_mem_cons, List.not_mem_nil, IsEmpty.forall_iff,
    implies_true, and_true]
  refine ⟨rfl, rfl, rfl, rfl, ?_, rfl, rfl⟩
  rw [← hfirst]
  rfl

namespace Scope

theorem advance_eq (s : Scope) (owner : LoopOwner) (index0 : Int) :
    s.advance owner index0 =
      { s with top := s.top.map fun (name, v) => (name, v.movedOn owner index0) } := by
  unfold advance
  congr
  funext ⟨name, v⟩
  cases v <;> rfl

@[simp] theorem lookup_advance (s : Scope) (owner : LoopOwner) (index0 : Int) (name : String) :
    (s.advance owner index0).top.lookup name =
      (s.top.lookup name).map (Value.movedOn owner index0) := by
  rw [advance_eq]
  simp only
  induction s.top with
  | nil => rfl
  | cons first rest ih =>
    obtain ⟨key, v⟩ := first
    rw [List.map_cons, List.lookup_cons, List.lookup_cons, ih]
    cases name == key <;> rfl

@[simp] theorem find_bind (s : Scope) (name : String) (v : Value) (other : String) :
    (s.bind name v).find other = if other = name then v else s.find other := by
  unfold find find? frames bind
  rw [List.findSome?_cons, List.findSome?_cons, Frame.lookup_bind]
  by_cases h : other = name <;> simp [h]

end Scope

namespace Render

open Session Moment

/-! ## What a loop selects -/

/-- A limit or an offset: none where it is absent or nil, and else a whole number. -/
inductive ArgumentIs (setting : Setting) : Option Expr → Option Int → Prop
  | absent : ArgumentIs setting none none
  | nil {e : Expr} : e.eval setting = .ok .nil → ArgumentIs setting (some e) none
  | whole {e : Expr} {v : Value} {n : Int} :
    e.eval setting = .ok v → v.whole? setting.host = .ok n →
    ArgumentIs setting (some e) (some n)

section

variable {env : Environment} {line : Nat} {head : LoopHead} {s : Session} {v : Value}
  {offset limit : Option Int}

theorem loopArgument_eq {argument : Option Expr}
    (h : ArgumentIs (s.setting env (some line)) argument limit) :
    loopArgument env line argument s = .ok limit s := by
  cases h with
  | absent => rfl
  | nil heval => exact bind_of_ok (evaluate_of_ok env heval)
  | @whole e v n heval hwhole =>
    refine (bind_of_ok (evaluate_of_ok env heval)).trans ?_
    have hchecked : evaluating env (some line)
        (fun setting => (setting.whole (setting.argumentError v) v).map some) s =
          .ok (some n) s := by
      rw [evaluating_eq_ok, whole_of_ok hwhole]
      exact ⟨rfl, rfl⟩
    cases v with
    | nil => cases hwhole
    | _ => exact hchecked

theorem select_eq (items : List Value) (isReversed : Bool) :
    select items offset limit isReversed = chosen items offset limit isReversed := by
  have hclamp : ∀ n : Int, n.toNat = (max n 0).toNat := by
    intro n
    omega
  unfold select chosen keepFront dropFront
  cases offset <;> cases limit <;> simp [← hclamp]

example : chosen [.int 1, .int 2, .int 3] (some (-1)) (some 2) true = [.int 2, .int 1] := rfl

theorem loopItems_eq (hv : head.collection.eval (s.setting env (some line)) = .ok v)
    (hfits : ∀ o, ¬ v.TooMany o)
    (hoffset : ArgumentIs (s.setting env (some line)) head.offset offset)
    (hlimit : ArgumentIs (s.setting env (some line)) head.limit limit) :
    loopItems env line head s =
      .ok (chosen (v.listed env.host) offset limit head.isReversed) s := by
  refine (bind_of_ok (evaluate_of_ok env hv)).trans ?_
  simp only [items?_of_fits hfits env.host]
  refine (bind_of_ok (loopArgument_eq hoffset)).trans ?_
  refine (bind_of_ok (loopArgument_eq hlimit)).trans ?_
  rw [← select_eq]
  rfl

end

/-! ## The frame of a loop -/

/-- The loop that is begun in this session. -/
def loopOwner (s : Session) : LoopOwner := .running (s.scope.depth + 1)

/-- The frame of a loop over so many items, before the first of them is bound. -/
def loopFrame (owner : LoopOwner) (n : Nat) : Frame := [("forloop", .loop ⟨owner, 0, n⟩)]

/-- The metadata of the loop moves to the place of an item, and the item is bound. -/
def loopTurn (owner : LoopOwner) (name : String) (k : Nat) (v : Value) (s : Session) : Session :=
  { s with scope := (s.scope.advance owner k).bind name v }

theorem samePlace_loopTurn (owner : LoopOwner) (name : String) (k : Nat) (v : Value)
    (s : Session) : SamePlace s (loopTurn owner name k v s) := ⟨rfl, rfl, rfl, rfl, rfl⟩

theorem find_loopTurn (owner : LoopOwner) (name : String) (k : Nat) (v : Value) (s : Session) :
    (loopTurn owner name k v s).scope.find name = v := by
  simp [loopTurn]

section

variable {env : Environment} {body otherwise : List Node} {rest : List Task} {s : Session}
  {line : Nat} {head : LoopHead} {vs : List Value}

theorem next_loop (hitems : loopItems env line head s = .ok vs s) :
    next env ⟨.node (.loop line head body otherwise) :: rest, s, none⟩ =
      ⟨(if vs.isEmpty then .nodes otherwise else .loop head.item body vs) :: rest, s, none⟩ := by
  show ofResult rest ((loopItems env line head >>= fun _ => _) s) = _
  rw [bind_of_ok hitems]
  cases vs <;> rfl

theorem nodes_loop_nil (hitems : loopItems env line head s = .ok [] s) :
    nodes env [.loop line head body otherwise] s = nodes env otherwise s := by
  refine nodes_of_leads fun rest => .step ?_
  rw [next_loop hitems]
  exact does_within env (room env s) s.depth rfl otherwise s rest rfl

theorem passes_loop {starts : List Session} {r : EStateM.Result Error Session Unit}
    (hitems : loopItems env line head s = .ok vs s) (hvs : vs ≠ [])
    (hturns : Turns env body (loopTurn (loopOwner s) head.item) 0 vs
      { s with scope := s.scope.push (loopFrame (loopOwner s) vs.length) } starts r)
    (otherwise : List Node) (rest : List Task) :
    Passes env (Begins body (.leaveFrame :: rest))
      ⟨.node (.loop line head body otherwise) :: rest, s, none⟩ starts
      (ended rest (closed Task.leaveFrame.undo r)) := by
  have hempty : vs.isEmpty = false := by simpa using hvs
  have hend : Passes env (Begins body (.leaveFrame :: rest)) (ended (.leaveFrame :: rest) r) []
      (ended rest (closed Task.leaveFrame.undo r)) := by
    cases r with
    | ok a s' => exact .other (not_begins_of_task nofun) (.here _)
    | error e s' => exact .other not_begins_of_error (.here _)
  have hrepeats : Repeats env body (.items (loopOwner s) head.item body)
      (loopTurn (loopOwner s) head.item) := repeats_items _ _
  have hall := (hrepeats.passes hturns (.leaveFrame :: rest)).trans hend
  rw [List.append_nil] at hall
  refine .other (not_begins_of_task nofun) ?_
  rw [next_loop hitems, hempty]
  exact .other (not_begins_of_task nofun) hall

end

/--
How a loop runs over its items, in a frame of its own on top of others. At the first turn the frame
holds no more than the metadata and the first item. At a later turn it is what the turn before left,
but for the item and for the metadata, which has moved on wherever it stands.
-/
structure RunsOver (env : Environment) (body : List Node) (name : String) (owner : LoopOwner)
    (below : List Frame) (vs : List Value) (starts : List Session) : Prop
    extends EachOnce env body vs starts where
  below : ∀ start ∈ starts, start.scope.below = below
  item : ∀ (k : Nat) (start : Session), starts[k]? = some start →
    vs[k]? = some (start.scope.find name)
  first : ∀ start : Session, starts[0]? = some start →
    start.scope.top = (loopFrame owner vs.length).bind name (start.scope.find name)
  later : ∀ (k : Nat) (start start' : Session),
    starts[k]? = some start → starts[k + 1]? = some start' →
    ∃ s', nodes env body start = .ok () s' ∧ ∀ other ≠ name,
      start'.scope.top.lookup other =
        (s'.scope.top.lookup other).map (Value.movedOn owner (k + 1 : Nat))
  metadata : ∀ (k : Nat) (start : Session), starts[k]? = some start → ∀ other ≠ name, ∀ l,
    start.scope.top.lookup other = some (.loop l) → l.owner = owner →
    l.length = (vs.length : Int) →
    ∀ entry ∈ positionEntries k vs.length,
      (Value.loop l).read env.host (.text entry.1) = .ok entry.2

theorem index0_of_movedOn {v : Value} {owner : LoopOwner} {k : Int} {l : LoopRecord}
    (h : v.movedOn owner k = .loop l) (howner : l.owner = owner) : l.index0 = k := by
  cases v with
  | loop l' =>
    obtain rfl : (if l'.owner = owner then { l' with index0 := k } else l') = l := by
      simpa [Value.movedOn] using h
    by_cases hsame : l'.owner = owner
    · rw [if_pos hsame]
    · rw [if_neg hsame] at howner
      exact absurd howner hsame
  | _ => cases h

theorem runsOver_of_turns {env : Environment} {body : List Node} {name : String}
    {owner : LoopOwner} {vs : List Value} {s : Session} {starts : List Session}
    {r : EStateM.Result Error Session Unit}
    (h : Turns env body (loopTurn owner name) 0 vs
      { s with scope := s.scope.push (loopFrame owner vs.length) } starts r) :
    RunsOver env body name owner s.scope.frames vs starts where
  toEachOnce := h.eachOnce
  below start hstart :=
    (h.keeps lasting_samePlace (samePlace_loopTurn owner name)
      (lasting_samePlace.nodes (samePlace_loadPartial env) body) start hstart).below
  item k start hstart := by
    obtain ⟨v, s', hv, rfl⟩ := h.prepared hstart
    rw [hv, find_loopTurn]
  first start hstart := by
    obtain ⟨v, -, rfl⟩ := h.first hstart
    rw [find_loopTurn]
    simp [loopTurn, loopFrame, Scope.advance_eq, Scope.push, Scope.bind, Value.movedOn]
  later k start start' hstart hstart' := by
    obtain ⟨v, s', -, hbody, rfl⟩ := h.later hstart hstart'
    refine ⟨s', hbody, fun other hother => ?_⟩
    simp [loopTurn, Scope.bind, hother]
  metadata k start hstart other hother l hl howner hlength := by
    obtain ⟨v, s', -, rfl⟩ := h.prepared hstart
    have hmoved : (s'.scope.top.lookup other).map (Value.movedOn owner k) = some (.loop l) := by
      simpa [loopTurn, Scope.bind, hother] using hl
    obtain ⟨w, -, hw⟩ := Option.map_eq_some_iff.mp hmoved
    have hindex : l.index0 = k := index0_of_movedOn hw howner
    obtain ⟨lowner, lindex, llength⟩ := l
    cases hindex
    cases hlength
    exact read_position env.host lowner k vs.length

theorem exists_runsOver {env : Environment} {line : Nat} {head : LoopHead} {body : List Node}
    {s : Session} {vs : List Value} (otherwise : List Node) (rest : List Task)
    (hitems : loopItems env line head s = .ok vs s) (hvs : vs ≠ []) :
    ∃ starts,
      Passes env (Begins body (.leaveFrame :: rest))
        ⟨.node (.loop line head body otherwise) :: rest, s, none⟩ starts
        (ended rest (nodes env [.loop line head body otherwise] s)) ∧
      RunsOver env body head.item (loopOwner s) s.scope.frames vs starts ∧
      ∀ e, Raises (nodes env [.loop line head body otherwise]) s e ↔
        ∃ last, starts.getLast? = some last ∧ Raises (nodes env body) last e := by
  obtain ⟨starts, r, hturns⟩ := exists_turns env body (loopTurn (loopOwner s) head.item) 0 vs
    { s with scope := s.scope.push (loopFrame (loopOwner s) vs.length) }
  obtain ⟨hpasses, hraises⟩ :=
    hturns.of_passes (passes_loop hitems hvs hturns otherwise) rest
  exact ⟨starts, hpasses, runsOver_of_turns hturns, hraises⟩

/--
A loop runs over the items of its value from its offset on and up to its limit, turned around if it
is reversed. Where there are none, it renders what stands in its `else` part and nothing else. Else
its body is rendered once for each of them, unless it fails, in a frame of the loop that finds the
item under its name and the metadata at its place; and the loop fails as the last of these
renderings does. The value is no range that is too long for a list.
-/
theorem loop_runs_over_selected_items (env : Environment) (line : Nat) (head : LoopHead)
    (body otherwise : List Node) (rest : List Task) {s : Session} {v : Value}
    {offset limit : Option Int} (hv : head.collection.eval (s.setting env (some line)) = .ok v)
    (hfits : ∀ o, ¬ v.TooMany o)
    (hoffset : ArgumentIs (s.setting env (some line)) head.offset offset)
    (hlimit : ArgumentIs (s.setting env (some line)) head.limit limit) :
    let vs := chosen (v.listed env.host) offset limit head.isReversed
    let loop := Node.loop line head body otherwise
    (vs = [] → nodes env [loop] s = nodes env otherwise s) ∧
    (vs ≠ [] → ∃ starts,
      Passes env (Begins body (.leaveFrame :: rest)) ⟨.node loop :: rest, s, none⟩ starts
        (ended rest (nodes env [loop] s)) ∧
      RunsOver env body head.item (loopOwner s) s.scope.frames vs starts ∧
      ∀ e, Raises (nodes env [loop]) s e ↔
        ∃ last, starts.getLast? = some last ∧ Raises (nodes env body) last e) := by
  intro vs loop
  have hitems : loopItems env line head s = .ok vs s := loopItems_eq hv hfits hoffset hlimit
  constructor
  · intro hnone
    rw [hnone] at hitems
    exact nodes_loop_nil hitems
  · intro hsome
    exact exists_runsOver otherwise rest hitems hsome

def reversedHead : LoopHead where
  item := "x"
  collection := .lookup (.name "xs") [] "xs"
  isReversed := true
  limit := some (.literal (.int 2))
  offset := some (.literal (.int 1))

/-- A page that writes the second and the third of some values the other way around. -/
def reversedPage : Template where
  nodes := [.loop 1 reversedHead [.output 1 "x" (.lookup (.name "x") [] "x")] []]
  name := none
  file := none
  isPartial := false
  source :=
    "\x7b% for x in xs reversed limit: 2 offset: 1 %\x7d\x7b\x7b x \x7d\x7d\x7b% endfor %\x7d"

theorem reversed_loop_runs_twice :
    let bindings := [("xs", .list [.int 1, .int 2, .int 3, .int 4])]
    let s := Session.start bare bindings none
    let setting := s.setting bare (some (1 : Nat))
    bare.parse reversedPage.source none none false = .ok reversedPage ∧
    (reversedPage.render bare bindings).toOption = some "32" ∧
    reversedHead.collection.eval setting = .ok (.list [.int 1, .int 2, .int 3, .int 4]) ∧
    (∀ o, ¬ (Value.list [.int 1, .int 2, .int 3, .int 4]).TooMany o) ∧
    ArgumentIs setting reversedHead.offset (some 1) ∧
    ArgumentIs setting reversedHead.limit (some 2) ∧
    ∃ starts : List Session, starts.length = 2 ∧
      ∀ start, starts[0]? = some start → start.scope.find "x" = .int 3 := by
  intro bindings s setting
  have hcollection :
      reversedHead.collection.eval setting = .ok (.list [.int 1, .int 2, .int 3, .int 4]) := rfl
  have hfits : ∀ o, ¬ (Value.list [.int 1, .int 2, .int 3, .int 4]).TooMany o := nofun
  have hoffset : ArgumentIs setting reversedHead.offset (some 1) := .whole rfl rfl
  have hlimit : ArgumentIs setting reversedHead.limit (some 2) := .whole rfl rfl
  have hrender : (reversedPage.render bare bindings).toOption = some "32" := by decide +kernel
  obtain ⟨-, hruns⟩ := loop_runs_over_selected_items bare 1 reversedHead
    [.output 1 "x" (.lookup (.name "x") [] "x")] [] [] hcollection hfits hoffset hlimit
  obtain ⟨starts, -, hruns, hraises⟩ := hruns (List.cons_ne_nil _ _)
  refine ⟨by with_unfolding_all rfl, hrender, hcollection, hfits, hoffset, hlimit, starts, ?_, ?_⟩
  · exact hruns.length_eq hraises (not_raises_of_render hrender)
  · intro start hstart
    exact (Option.some.inj (hruns.item 0 start hstart)).symm

def hugeHead : LoopHead where
  item := "i"
  collection := .range (.literal (.int 1)) (.literal (.int 9223372036854775808))
  isReversed := false
  limit := some (.literal (.int 2))
  offset := none

/-- A page for the first two numbers of a range that is too long for a list. -/
def hugePage : Template where
  nodes := [.loop 1 hugeHead [.output 1 "i" (.lookup (.name "i") [] "i")] []]
  name := none
  file := none
  isPartial := false
  source :=
    "\x7b% for i in (1..9223372036854775808) limit: 2 %\x7d\x7b\x7b i \x7d\x7d\x7b% endfor %\x7d"

theorem chosen_upTo (items : List Value) (n : Int) :
    chosen items none (some n) false = items.take (max n 0).toNat := by
  simp [chosen]

theorem take_rangeItems (start stop : Int) (n : Nat) :
    (Value.rangeItems start stop).take n = (List.range (min n (Value.rangeLength start stop))).map
      fun (i : Nat) => .int (start + i) := by
  unfold Value.rangeItems
  rw [← List.map_take, List.take_range]

/-- Two items are chosen, but the loop fails before it renders its body for any of them. -/
theorem huge_loop_fails :
    let s := Session.start bare [] none
    let setting := s.setting bare (some (1 : Nat))
    bare.parse hugePage.source none none false = .ok hugePage ∧
    hugeHead.collection.eval setting = .ok (.range 1 9223372036854775809) ∧
    ArgumentIs setting hugeHead.offset none ∧ ArgumentIs setting hugeHead.limit (some 2) ∧
    chosen ((Value.range 1 9223372036854775809).listed bare.host) none (some 2)
        hugeHead.isReversed =
      [.int 1, .int 2] ∧
    (∀ node ∈ hugePage.nodes, ∀ rest,
      next bare ⟨.node node :: rest, s, none⟩ = ⟨rest, s, some (.overflow .tooLong)⟩) ∧
    hugePage.render bare [] = .error (.overflow .tooLong) := by
  intro s setting
  refine ⟨by with_unfolding_all rfl, rfl, .absent, .whole rfl rfl, ?_, ?_, rfl⟩
  · have hlisted : (Value.range 1 9223372036854775809).listed bare.host =
        Value.rangeItems 1 9223372036854775809 := rfl
    have hlimit : (max (2 : Int) 0).toNat = 2 := by decide
    have hshort : min 2 (Value.rangeLength 1 9223372036854775809) = 2 := by decide
    rw [show hugeHead.isReversed = false from rfl, hlisted, chosen_upTo, hlimit, take_rangeItems,
      hshort]
    rfl
  · intro node hnode rest
    obtain rfl := List.mem_singleton.mp hnode
    rfl

end Render

end Stencil
