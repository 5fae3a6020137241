import Stencil.Proofs.Render.Selection

/-!
# The metadata of a loop

A loop binds its metadata once, before its first turn. From turn to turn the metadata moves on where
it stands, so under its name it is found at every turn unless the body binds that name to something
else.
-/

namespace Stencil

open Markup

theorem Scope.find_of_lookup {s : Scope} {name : String} {v : Value}
    (h : s.top.lookup name = some v) : s.find name = v := by
  unfold find find? frames
  rw [List.findSome?_cons, h]
  rfl

/-! ## What assignments leave -/

namespace Assigned

variable {env : Environment} {assignments : List Assignment} {frame frame' : Frame} {name : String}

theorem isSome_lookup (h : Assigned env assignments frame frame')
    (hbound : (frame.lookup name).isSome) : (frame'.lookup name).isSome := by
  induction h with
  | done => exact hbound
  | skip _ ih => exact ih hbound
  | carryOut _ _ ih =>
    apply ih
    rw [Frame.lookup_bind]
    split
    · rfl
    · exact hbound

theorem lookup_of_ne (h : Assigned env assignments frame frame')
    (hname : ∀ assignment ∈ assignments, assignment.target ≠ name) :
    frame'.lookup name = frame.lookup name := by
  induction h with
  | done => rfl
  | skip _ ih => exact ih fun assignment ha => hname assignment (List.mem_cons_of_mem _ ha)
  | @carryOut first rest frame frame' s line v heval _ ih =>
    have hfirst : name ≠ first.target := (hname first List.mem_cons_self).symm
    rw [ih fun assignment ha => hname assignment (List.mem_cons_of_mem _ ha), Frame.lookup_bind,
      if_neg hfirst]

end Assigned

namespace Render

open Session Moment

/-! ## From turn to turn -/

theorem movedOn_eq_iff {owner : LoopOwner} {k n : Int} {v : Value} :
    v.movedOn owner k = .loop ⟨owner, k, n⟩ ↔ ∃ j, v = .loop ⟨owner, j, n⟩ := by
  constructor
  · intro h
    cases v with
    | loop l =>
      obtain ⟨owner', index0, length⟩ := l
      have hrecord : (if owner' = owner then LoopRecord.mk owner' k length
          else ⟨owner', index0, length⟩) = ⟨owner, k, n⟩ := by
        simpa [Value.movedOn] using h
      refine ⟨index0, ?_⟩
      split at hrecord <;> cases hrecord <;> rfl
    | _ => cases h
  · rintro ⟨j, rfl⟩
    simp [Value.movedOn]

namespace RunsOver

variable {env : Environment} {body : List Node} {name : String} {owner : LoopOwner}
  {below : List Frame} {vs : List Value} {starts : List Session} {start start' s' : Session}
  {k : Nat}

theorem lookup_first (h : RunsOver env body name owner below vs starts) (hname : name ≠ "forloop")
    (hstart : starts[0]? = some start) :
    start.scope.top.lookup "forloop" = some (.loop ⟨owner, 0, vs.length⟩) := by
  rw [h.first start hstart, Frame.lookup_bind, if_neg hname.symm]
  rfl

theorem exists_before (h : starts[k + 1]? = some start') : ∃ start, starts[k]? = some start := by
  obtain ⟨hlong, -⟩ := List.getElem?_eq_some_iff.mp h
  exact ⟨_, List.getElem?_eq_getElem (Nat.lt_of_succ_lt hlong)⟩

theorem assigned_of_ok (hbody : nodes env body start = .ok () s') :
    Assigned env (nodeAssignments body) start.scope.top s'.scope.top :=
  after_of_ok hbody ▸ writes_nodes env body start

theorem isSome_lookup (h : RunsOver env body name owner below vs starts)
    (hname : name ≠ "forloop") (hstart : starts[k]? = some start) :
    (start.scope.top.lookup "forloop").isSome := by
  induction k generalizing start with
  | zero =>
    rw [h.lookup_first hname hstart]
    rfl
  | succ k ih =>
    obtain ⟨before, hbefore⟩ := exists_before hstart
    obtain ⟨s', hbody, hlater⟩ := h.later k before start hbefore hstart
    rw [hlater "forloop" hname.symm, Option.isSome_map]
    exact (assigned_of_ok hbody).isSome_lookup (ih hbefore)

/-- At a later turn the metadata is found if and only if the turn before left it in its place. -/
theorem find_later_iff (h : RunsOver env body name owner below vs starts)
    (hname : name ≠ "forloop") (hstart : starts[k]? = some start)
    (hstart' : starts[k + 1]? = some start') (hbody : nodes env body start = .ok () s') :
    start'.scope.find "forloop" = .loop ⟨owner, (k + 1 : Nat), vs.length⟩ ↔
      ∃ j, s'.scope.top.lookup "forloop" = some (.loop ⟨owner, j, vs.length⟩) := by
  obtain ⟨s₁, hbody₁, hlater⟩ := h.later k start start' hstart hstart'
  obtain rfl : s' = s₁ := by
    rw [hbody] at hbody₁
    cases hbody₁
    rfl
  have hbound := (assigned_of_ok hbody).isSome_lookup (h.isSome_lookup hname hstart)
  obtain ⟨v, hv⟩ := Option.isSome_iff_exists.mp hbound
  have hmoved : start'.scope.top.lookup "forloop" = some (v.movedOn owner (k + 1 : Nat)) := by
    rw [hlater "forloop" hname.symm, hv]
    rfl
  rw [Scope.find_of_lookup hmoved, hv, movedOn_eq_iff]
  simp

theorem find_of_not_assigned (h : RunsOver env body name owner below vs starts)
    (hname : name ≠ "forloop")
    (hbody : ∀ assignment ∈ nodeAssignments body, assignment.target ≠ "forloop")
    (hstart : starts[k]? = some start) :
    start.scope.top.lookup "forloop" = some (.loop ⟨owner, k, vs.length⟩) := by
  induction k generalizing start with
  | zero => exact h.lookup_first hname hstart
  | succ k ih =>
    obtain ⟨before, hbefore⟩ := exists_before hstart
    obtain ⟨s', hok, hlater⟩ := h.later k before start hbefore hstart
    rw [hlater "forloop" hname.symm, (assigned_of_ok hok).lookup_of_ne hbody, ih hbefore]
    simp [Value.movedOn]

end RunsOver

/--
A loop whose items have another name finds its metadata under `forloop` at the first turn, and at a
later turn exactly if the turn before left it there, whatever place it stood at. So at every turn it
is found at its place if no assignment of the body that writes to the frame of the loop binds the
name; what nested loops, partials and repeat-suppressing blocks bind makes no difference. The loop
fails as its last turn does.
-/
theorem forloop_found_unless_assigned (env : Environment) (line : Nat) (head : LoopHead)
    (body otherwise : List Node) (rest : List Task) {s : Session} {vs : List Value}
    (hitems : loopItems env line head s = .ok vs s) (hvs : vs ≠ [])
    (hname : head.item ≠ "forloop") :
    ∃ starts,
      Passes env (Begins body (.leaveFrame :: rest))
        ⟨.node (.loop line head body otherwise) :: rest, s, none⟩ starts
        (ended rest (nodes env [.loop line head body otherwise] s)) ∧
      EachOnce env body vs starts ∧
      (∀ start, starts[0]? = some start →
        start.scope.find "forloop" = .loop ⟨loopOwner s, 0, vs.length⟩) ∧
      (∀ k start start' s', starts[k]? = some start → starts[k + 1]? = some start' →
        nodes env body start = .ok () s' →
        (start'.scope.find "forloop" = .loop ⟨loopOwner s, (k + 1 : Nat), vs.length⟩ ↔
          ∃ j, s'.scope.top.lookup "forloop" = some (.loop ⟨loopOwner s, j, vs.length⟩))) ∧
      ((∀ assignment ∈ nodeAssignments body, assignment.target ≠ "forloop") →
        ∀ (k : Nat) start, starts[k]? = some start →
          start.scope.find "forloop" = .loop ⟨loopOwner s, k, vs.length⟩) ∧
      ∀ e, Raises (nodes env [.loop line head body otherwise]) s e ↔
        ∃ last, starts.getLast? = some last ∧ Raises (nodes env body) last e := by
  obtain ⟨starts, hpasses, hruns, hraises⟩ := exists_runsOver otherwise rest hitems hvs
  refine ⟨starts, hpasses, hruns.toEachOnce, ?_, ?_, ?_, hraises⟩
  · intro start hstart
    exact Scope.find_of_lookup (hruns.lookup_first hname hstart)
  · intro k start start' s' hstart hstart' hbody
    exact hruns.find_later_iff hname hstart hstart' hbody
  · intro hbody k start hstart
    exact Scope.find_of_lookup (hruns.find_of_not_assigned hname hbody hstart)

def countingHead : LoopHead where
  item := "x"
  collection := .lookup (.name "xs") [] "xs"
  isReversed := false
  limit := none
  offset := none

def writeIndex : Node :=
  .output 1 "forloop.index" (.lookup (.name "forloop") [.name "index"] "forloop.index")

/-- A page that writes the places of some values. -/
def countingPage : Template where
  nodes := [.loop 1 countingHead [writeIndex] []]
  name := none
  file := none
  isPartial := false
  source := "\x7b% for x in xs %\x7d\x7b\x7b forloop.index \x7d\x7d\x7b% endfor %\x7d"

theorem counting_finds_forloop :
    let bindings := [("xs", .list [.int 7, .int 8])]
    let s := Session.start bare bindings none
    bare.parse countingPage.source none none false = .ok countingPage ∧
    (countingPage.render bare bindings).toOption = some "12" ∧
    loopItems bare (1 : Nat) countingHead s = .ok [.int 7, .int 8] s ∧
    countingHead.item ≠ "forloop" ∧
    ∃ starts : List Session, starts.length = 2 ∧
      ∀ (k : Nat) start, starts[k]? = some start →
        start.scope.find "forloop" = .loop ⟨loopOwner s, k, 2⟩ := by
  intro bindings s
  have hitems : loopItems bare (1 : Nat) countingHead s = .ok [.int 7, .int 8] s := rfl
  have hname : countingHead.item ≠ "forloop" := by decide
  have hrender : (countingPage.render bare bindings).toOption = some "12" := by decide +kernel
  obtain ⟨starts, -, heach, -, -, hall, hraises⟩ :=
    forloop_found_unless_assigned bare 1 countingHead [writeIndex] [] [] hitems
      (List.cons_ne_nil _ _) hname
  refine ⟨by with_unfolding_all rfl, hrender, hitems, hname, starts, ?_, hall nofun⟩
  exact heach.length_eq hraises (not_raises_of_render hrender)

def overwritingBody : List Node := [writeIndex, .assign 1 ⟨"forloop", .literal .nil⟩]

/-- A page that also assigns something else to the name of the metadata. -/
def overwritingPage : Template where
  nodes := [.loop 1 countingHead overwritingBody []]
  name := none
  file := none
  isPartial := false
  source :=
    "\x7b% for x in xs %\x7d\x7b\x7b forloop.index \x7d\x7d" ++
      "\x7b% assign forloop = nil %\x7d\x7b% endfor %\x7d"

theorem overwriting_loses_forloop :
    countingHead.item ≠ "forloop" ∧
    bare.parse overwritingPage.source none none false = .ok overwritingPage ∧
    overwritingPage.nodes = [.loop 1 countingHead overwritingBody []] ∧
    (overwritingPage.render bare [("xs", .list [.int 7, .int 8])]).toOption = some "1" ∧
    ∃ m, Leads bare (Moment.start bare overwritingPage [("xs", .list [.int 7, .int 8])]) m ∧
      Begins overwritingBody [.leaveFrame, .nodes []] m ∧
      m.session.scope.find "x" = .int 8 ∧ m.session.scope.find "forloop" = .nil := by
  refine ⟨by decide, by with_unfolding_all rfl, rfl, by decide +kernel, ?_⟩
  refine ⟨(next bare)^[10] (Moment.start bare overwritingPage [("xs", .list [.int 7, .int 8])]),
    ⟨10, rfl⟩, ?_, rfl, rfl⟩
  exact ⟨rfl, .items (.running 2) "x" overwritingBody 2 [], rfl⟩

end Render

end Stencil
