import Mathlib.Data.List.DropRight
import Stencil.Proofs.Render.Each
import Stencil.Proofs.Render.Turns

/-!
# What a partial sees

The attributes of an inclusion make a new frame. In it the partial is rendered once for each value,
which is bound under the last segment of the partial's name. What one rendering leaves in the frame
is there for the next.
-/

namespace Stencil

open Markup

/-! ## Frames -/

namespace Frame

@[simp] theorem lookup_bind (frame : Frame) (name : String) (v : Value) (other : String) :
    (frame.bind name v).lookup other = if other = name then some v else frame.lookup other := by
  induction frame with
  | nil =>
    by_cases h : other = name
    · simp [bind, h]
    · simp [bind, h, List.lookup_cons, beq_false_of_ne h]
  | cons first rest ih =>
    obtain ⟨key, w⟩ := first
    unfold bind
    split
    · next hkey =>
      subst hkey
      by_cases h : other = key
      · simp [h]
      · simp [h, List.lookup_cons, beq_false_of_ne h]
    · next hkey =>
      rw [List.lookup_cons, List.lookup_cons, ih]
      by_cases h : other = key
      · simp [h, hkey]
      · simp [beq_false_of_ne h]

theorem lookup_merge (frame later : Frame) (name : String) :
    (frame.merge later).lookup name = (later.reverse.lookup name).or (frame.lookup name) := by
  induction later generalizing frame with
  | nil => rfl
  | cons first rest ih =>
    obtain ⟨key, v⟩ := first
    show ((frame.bind key v).merge rest).lookup name = _
    rw [ih, lookup_bind, List.reverse_cons, List.lookup_append, Option.or_assoc]
    by_cases h : name = key
    · simp [h]
    · simp [h, List.lookup_cons, beq_false_of_ne h]

end Frame

/-! ## The last segment of a name -/

/-- What stands after the last slash of a name, or all of a name without one. -/
def IsLastSegment (name segment : String) : Prop :=
  '/' ∉ segment.toList ∧ (name = segment ∨ ∃ folder, name = folder ++ "/" ++ segment)

namespace Render

open Session Moment

theorem isLastSegment_bindingName (name : String) : IsLastSegment name (bindingName name) := by
  have hsegment : (bindingName name).toList = name.toList.rtakeWhile (· ≠ '/') := by
    unfold bindingName
    rw [String.toList_ofList]
    rfl
  have hsplit : name.toList.rdropWhile (· ≠ '/') ++ name.toList.rtakeWhile (· ≠ '/') =
      name.toList := List.rdropWhile_append_rtakeWhile
  rw [← hsegment] at hsplit
  refine ⟨fun hslash => ?_, ?_⟩
  · rw [hsegment] at hslash
    simpa using List.mem_rtakeWhile_imp hslash
  · by_cases hfolder : name.toList.rdropWhile (· ≠ '/') = []
    · rw [hfolder, List.nil_append] at hsplit
      exact .inl (String.toList_inj.mp hsplit.symm)
    · have hslash : (name.toList.rdropWhile (· ≠ '/')).getLast hfolder = '/' := by
        simpa using List.rdropWhile_last_not _ _ hfolder
      have hlast := List.dropLast_append_getLast hfolder
      rw [hslash] at hlast
      refine .inr ⟨String.ofList (name.toList.rdropWhile (· ≠ '/')).dropLast, ?_⟩
      apply String.toList_inj.mp
      rw [String.toList_append, String.toList_append, String.toList_ofList,
        show "/".toList = ['/'] from rfl, hlast, hsplit]

/-! ## Attributes -/

/-- Attributes with their values. Each is evaluated where those before it are bound. -/
def given (setting : Frame → Setting) (frame : Frame) :
    List (String × Expr) → Except Error (List (String × Value))
  | [] => .ok []
  | (key, e) :: rest => do
    let v ← e.eval (setting frame)
    let more ← given setting (frame.bind key v) rest
    return (key, v) :: more

/-- The session with another frame on top. -/
def framed (s : Session) (frame : Frame) : Session :=
  { s with scope := { s.scope with top := frame } }

section

variable {env : Environment} {body : List Node} {rest tasks : List Task} {s : Session}
  {line : Int} {attributes : List (String × Expr)} {e : Error}

theorem next_attributes {key : String} {e : Expr} {v : Value} {more : List (String × Expr)}
    (h : e.eval (s.setting env (some line)) = .ok v) :
    next env ⟨.attributes line ((key, e) :: more) :: tasks, s, none⟩ =
      ⟨.attributes line more :: tasks, framed s (s.scope.top.bind key v), none⟩ := by
  show ofResult tasks ((evaluate env (some line) e >>= fun _ => _) s) = _
  rw [bind_of_ok (evaluate_of_ok env h)]
  rfl

theorem next_attributes_of_error {key : String} {e : Expr} {error : Error}
    {more : List (String × Expr)} (h : e.eval (s.setting env (some line)) = .error error) :
    next env ⟨.attributes line ((key, e) :: more) :: tasks, s, none⟩ = ⟨tasks, s, some error⟩ := by
  show ofResult tasks ((evaluate env (some line) e >>= fun _ => _) s) = _
  rw [bind_of_error (evaluate_of_error env h)]
  rfl

theorem passes_attributes (body : List Node) (rest tasks : List Task)
    {pairs : List (String × Value)}
    (h : given (fun frame => (framed s frame).setting env (some line)) s.scope.top attributes =
      .ok pairs) :
    Passes env (Begins body rest) ⟨.attributes line attributes :: tasks, s, none⟩ []
      ⟨tasks, framed s (s.scope.top.merge pairs), none⟩ := by
  induction attributes generalizing s pairs with
  | nil =>
    cases h
    exact .other (not_begins_of_task nofun) (.here _)
  | cons first more ih =>
    obtain ⟨key, e⟩ := first
    obtain ⟨v, heval, h⟩ := exists_of_bind_eq_ok h
    obtain ⟨later, hlater, h⟩ := exists_of_bind_eq_ok h
    cases h
    refine .other (not_begins_of_task nofun) ?_
    rw [next_attributes (s := s) heval]
    exact ih hlater

theorem passes_attributes_of_error (body : List Node) (rest tasks : List Task)
    (h : given (fun frame => (framed s frame).setting env (some line)) s.scope.top attributes =
      .error e) :
    ∃ frame, Passes env (Begins body rest) ⟨.attributes line attributes :: tasks, s, none⟩ []
      ⟨tasks, framed s frame, some e⟩ := by
  induction attributes generalizing s with
  | nil => cases h
  | cons first more ih =>
    obtain ⟨key, expr⟩ := first
    obtain heval | ⟨v, heval, h⟩ := except_bind_eq_error.mp h
    · refine ⟨s.scope.top, .other (not_begins_of_task nofun) ?_⟩
      rw [next_attributes_of_error (s := s) heval]
      exact .here _
    · obtain hlater | ⟨later, -, h⟩ := except_bind_eq_error.mp h
      · obtain ⟨frame, hpasses⟩ := ih (s := framed s (s.scope.top.bind key v)) hlater
        refine ⟨frame, .other (not_begins_of_task nofun) ?_⟩
        rw [next_attributes (s := s) heval]
        exact hpasses
      · cases h

end

/-! ## Partials -/

/-- What is to be done when a partial is over that was entered in the session `s`. -/
def partialEnd (s : Session) (rest : List Task) : List Task :=
  .leaveFrame :: .leavePartial s.template s.isPartial s.depth s.chain :: rest

section

variable {env : Environment} {body : List Node} {rest : List Task} {s s₁ : Session} {line : Nat}
  {i : Inclusion} {name : String} {t : Template} {v : Value}

theorem passes_partialEnd (env : Environment) (body : List Node) (rest : List Task) (s : Session)
    (r : EStateM.Result Error Session Unit) :
    Passes env (Begins body (partialEnd s rest)) (ended (partialEnd s rest) r) []
      (ended rest (closed (left s) r)) := by
  have htask : ∀ s₁ error,
      ¬ Begins body (partialEnd s rest) ⟨partialEnd s rest, s₁, error⟩ :=
    fun s₁ error => not_begins_of_task nofun
  cases r with
  | ok a s' => exact .other (htask s' none) (.other (not_begins_of_task nofun) (.here _))
  | error e s' => exact .other not_begins_of_error (.other not_begins_of_error (.here _))

theorem passes_entry (hneeds : needs env line i s = .ok (name, t, v) s₁)
    (hroom : s₁.depth < env.maxDepth) (rest : List Task) :
    Passes env (Begins t.nodes (partialEnd s₁ rest)) ⟨.node (.inclusion line i) :: rest, s, none⟩ []
      ⟨.attributes line i.attributes ::
        .each (bindingName name) t.nodes (Bound.ofValue v).values :: partialEnd s₁ rest,
        entered name line s₁, none⟩ := by
  have hlimit : ¬ env.maxDepth ≤ s₁.depth := Int.not_le.mpr hroom
  refine .other (not_begins_of_task nofun) ?_
  rw [next_inclusion hneeds]
  refine .other (not_begins_of_task nofun) ?_
  rw [next_entry, if_neg hlimit]
  exact .here _

/-- The setting of an attribute, where those before it made a frame. -/
def attributeSetting (env : Environment) (line : Int) (name : String) (s : Session)
    (frame : Frame) : Setting :=
  ⟨s.scope.push frame, env.strict, some name, some line, env.host⟩

theorem passes_failed_attributes {e : Error} (hneeds : needs env line i s = .ok (name, t, v) s₁)
    (hroom : s₁.depth < env.maxDepth)
    (hgiven : given (attributeSetting env line name s₁) [] i.attributes = .error e)
    (rest : List Task) :
    Passes env (Begins t.nodes (partialEnd s₁ rest)) ⟨.node (.inclusion line i) :: rest, s, none⟩ []
      (ended rest (.error e s₁)) := by
  obtain ⟨frame, hattributes⟩ := passes_attributes_of_error t.nodes (partialEnd s₁ rest)
    (.each (bindingName name) t.nodes (Bound.ofValue v).values :: partialEnd s₁ rest)
    (s := entered name line s₁) hgiven
  have hend :=
    passes_partialEnd env t.nodes rest s₁ (.error e (framed (entered name line s₁) frame))
  exact (passes_entry hneeds hroom rest).trans
    (hattributes.trans (.other not_begins_of_error hend))

theorem passes_partial {pairs : List (String × Value)} {starts : List Session}
    {r : EStateM.Result Error Session Unit} (hneeds : needs env line i s = .ok (name, t, v) s₁)
    (hroom : s₁.depth < env.maxDepth)
    (hgiven : given (attributeSetting env line name s₁) [] i.attributes = .ok pairs)
    (hturns : Turns env t.nodes
      (fun _ v s => { s with scope := s.scope.bind (bindingName name) v }) 0
      (Bound.ofValue v).values (framed (entered name line s₁) (Frame.merge [] pairs)) starts r)
    (rest : List Task) :
    Passes env (Begins t.nodes (partialEnd s₁ rest)) ⟨.node (.inclusion line i) :: rest, s, none⟩
      starts (ended rest (closed (left s₁) r)) := by
  have hattributes := passes_attributes t.nodes (partialEnd s₁ rest)
    (.each (bindingName name) t.nodes (Bound.ofValue v).values :: partialEnd s₁ rest)
    (s := entered name line s₁) hgiven
  have hall := (passes_entry hneeds hroom rest).trans (hattributes.trans
    (((repeats_each (bindingName name)).passes hturns _).trans
      (passes_partialEnd env t.nodes rest s₁ r)))
  simpa using hall

end

theorem values_ofValue_eq (v : Value) : (Bound.ofValue v).values = v.elements?.getD [v] := by
  unfold Bound.ofValue
  cases v.elements? <;> rfl

/--
What a partial sees in its turns. Its frame lies on top of others; at the first turn it is the frame
of the attributes with the first value, and at a later turn it is what the turn before left, with
the next value.
-/
structure Sees (env : Environment) (body : List Node) (key : String) (frame : Frame)
    (below : List Frame) (vs : List Value) (starts : List Session) : Prop
    extends EachOnce env body vs starts where
  below : ∀ start ∈ starts, start.scope.below = below
  first : ∀ start, starts[0]? = some start →
    ∃ v, vs[0]? = some v ∧ start.scope.top = frame.bind key v
  later : ∀ k start start', starts[k]? = some start → starts[k + 1]? = some start' →
    ∃ v s', vs[k + 1]? = some v ∧ nodes env body start = .ok () s' ∧
      start'.scope.top = s'.scope.top.bind key v

theorem sees_of_turns {env : Environment} {body : List Node} {key : String} {vs : List Value}
    {s : Session} {starts : List Session} {r : EStateM.Result Error Session Unit}
    (h : Turns env body (fun _ v s => { s with scope := s.scope.bind key v }) 0 vs s starts r) :
    Sees env body key s.scope.top s.scope.below vs starts where
  toEachOnce := h.eachOnce
  below start hstart :=
    (h.keeps lasting_samePlace (fun _ v s => lasting_samePlace.bind key v s)
      (lasting_samePlace.nodes (samePlace_loadPartial env) body) start hstart).below
  first start hstart := by
    obtain ⟨v, hv, rfl⟩ := h.first hstart
    exact ⟨v, hv, rfl⟩
  later k start start' hstart hstart' := by
    obtain ⟨v, s', hv, hbody, rfl⟩ := h.later hstart hstart'
    exact ⟨v, s', hv, hbody, rfl⟩

/--
An inclusion that has all it needs, and room, evaluates its attributes one by one, each in the scope
of the tag with those before it on top. Where all of them have values, the frame they make is that
of the partial, in which later attributes win over earlier ones of the same name. The partial is
rendered once for a value, or once for each element of a list or tuple, as long as it does not fail;
the inclusion fails as the last of these renderings does. Each finds its value under the last
segment of the name; for the rest the first one finds the attributes in the frame, and a later one
all that the one before left there.
-/
theorem partial_sees_attributes_and_value (env : Environment) (line : Nat) (i : Inclusion)
    (rest : List Task) {s s₁ : Session} {name : String} {t : Template} {v : Value}
    (hneeds : needs env line i s = .ok (name, t, v) s₁) (hroom : s.depth < env.maxDepth) :
    IsLastSegment name (bindingName name) ∧
    ∃ starts,
      Passes env (Begins t.nodes (partialEnd s rest)) ⟨.node (.inclusion line i) :: rest, s, none⟩
        starts (ended rest (nodes env [.inclusion line i] s)) ∧
      match given (attributeSetting env line name s) [] i.attributes with
      | .error e => starts = [] ∧ nodes env [.inclusion line i] s = .error e s₁
      | .ok pairs =>
        (∀ key, (Frame.merge [] pairs).lookup key = pairs.reverse.lookup key) ∧
        Sees env t.nodes (bindingName name) (Frame.merge [] pairs) s.scope.frames
          (v.elements?.getD [v]) starts ∧
        ∀ e, Raises (nodes env [.inclusion line i]) s e ↔
          ∃ last, starts.getLast? = some last ∧ Raises (nodes env t.nodes) last e := by
  refine ⟨isLastSegment_bindingName name, ?_⟩
  obtain ⟨reads, partials, rfl⟩ : ReadsMore s s₁ := after_of_ok hneeds ▸ readsMore_needs s
  split
  · next e hgiven =>
    have hpasses := passes_failed_attributes hneeds hroom hgiven
    rw [nodes_of_leads fun rest => (hpasses rest).leads]
    exact ⟨[], hpasses rest, rfl, rfl⟩
  · next pairs hgiven =>
    obtain ⟨starts, r, hturns⟩ := exists_turns env t.nodes
      (fun _ v s => { s with scope := s.scope.bind (bindingName name) v }) 0
      (Bound.ofValue v).values
      (framed (entered name line { s with reads, partials }) (Frame.merge [] pairs))
    obtain ⟨hpasses, hraises⟩ := hturns.of_passes (passes_partial hneeds hroom hgiven hturns) rest
    refine ⟨starts, hpasses, ?_, ?_, hraises⟩
    · intro key
      rw [Frame.lookup_merge]
      exact Option.or_none
    · rw [← values_ofValue_eq]
      exact sees_of_turns hturns

/-- A partial that writes what it is bound to and an attribute, which it then assigns. -/
def cardSource : String :=
  "\x7b\x7b row \x7d\x7d\x7b\x7b a \x7d\x7d\x7b% assign a = 'x' %\x7d"

def cards : Environment where
  loader := some (.memory [("cards/row", cardSource)])
  strict := false
  maxDepth := 3
  globals := []
  tags := TagTable.default
  host := .plain

def cardPartial : Template where
  nodes := [.output 1 "row" (.lookup (.name "row") [] "row"),
    .output 1 "a" (.lookup (.name "a") [] "a"), .assign 1 ⟨"a", .literal (.text "x")⟩]
  name := some "cards/row"
  file := none
  isPartial := true
  source := cardSource

def cardInclusion : Inclusion where
  template := .literal (.text "cards/row")
  bound := some (.lookup (.name "xs") [] "xs")
  attributes := [("a", .literal (.int 1)), ("a", .literal (.int 2))]
  markup := "'cards/row' for xs a: 1 a: 2"

def cardsPage : Template where
  nodes := [.inclusion 1 cardInclusion]
  name := none
  file := none
  isPartial := false
  source := "\x7b% include 'cards/row' for xs a: 1 a: 2 %\x7d"

theorem card_sees_second_attribute :
    let bindings := [("xs", .list [.int 1, .int 2])]
    let s := Session.start cards bindings none
    cards.parse cardsPage.source none none false = .ok cardsPage ∧
    (cardsPage.render cards bindings).toOption = some "122x" ∧
    ∃ s₁, needs cards 1 cardInclusion s =
        .ok ("cards/row", cardPartial, .list [.int 1, .int 2]) s₁ ∧ s.depth < cards.maxDepth ∧
      ∃ starts : List Session, starts.length = 2 ∧
        ∀ start, starts[0]? = some start →
          start.scope.top = [("a", .int 2), ("row", .int 1)] := by
  intro bindings s
  have hload : cards.load "cards/row" true = .ok cardPartial := by
    with_unfolding_all rfl
  have hincludes : IncludesFor (s.setting cards (some ((1 : Nat) : Int))) "cards/row"
      cardInclusion.attributes cardInclusion (.list [.int 1, .int 2]) := ⟨rfl, ⟨_, rfl, rfl⟩, rfl⟩
  have hneeds := needs_of_load (by decide) hincludes (loadPartial_of_found rfl hload)
  have hroom : (s.depth : Int) < cards.maxDepth := by decide
  have hrender : (cardsPage.render cards bindings).toOption = some "122x" := by decide +kernel
  obtain ⟨-, starts, -, -, hsees, hraises⟩ :=
    partial_sees_attributes_and_value cards 1 cardInclusion [] hneeds hroom
  refine ⟨by with_unfolding_all rfl, hrender, _, hneeds, hroom, starts, ?_, ?_⟩
  · exact hsees.length_eq hraises (not_raises_of_render hrender)
  · intro start hstart
    obtain ⟨v, hv, htop⟩ := hsees.first start hstart
    cases hv
    rw [show bindingName "cards/row" = "row" by decide +kernel] at htop
    simpa [Frame.merge, Frame.bind] using htop

end Render

end Stencil
