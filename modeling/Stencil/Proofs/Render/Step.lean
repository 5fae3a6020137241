import Stencil.Proofs.Render.Failing

/-!
# What one step may do

A step that neither enters nor leaves a partial, nor completes a repeat-suppressing block, changes
no more of the session than its frames, its text, and what was read. An inclusion is the only task
that hands over the entry to a partial, and the partial has a name.
-/

namespace Stencil

open Markup

/-- The same template is being rendered inside the same inclusions. -/
structure Session.SamePartial (s s' : Session) : Prop where
  template : s'.template = s.template
  isPartial : s'.isPartial = s.isPartial
  depth : s'.depth = s.depth
  chain : s'.chain = s.chain

/-- No more differs than the frames, the text, and what was read. -/
structure Session.MinorChange (s s' : Session) : Prop extends SamePartial s s' where
  lastChanged : s'.lastChanged = s.lastChanged

namespace Render

open Session

/-! ## Tasks that are handed over -/

/-- The task leaves no partial, and enters none without a name. -/
def Task.IsInner : Task → Prop
  | .entry _ _ name _ _ => name ≠ ""
  | .leavePartial .. => False
  | _ => True

/-- Besides, it is no block that is complete. -/
def Task.IsFresh : Task → Prop
  | .changed _ => False
  | task => task.IsInner

/-- The other tasks enter or leave a partial, or have to do with a block that is complete. -/
def Task.isOrdinary : Task → Bool
  | .entry .. => false
  | .leavePartial .. => false
  | .leaveCapture _ => false
  | .changed _ => false
  | _ => true

/-- However the action ends, `R` holds then, and `P` of all tasks that are handed over. -/
def Hands (R : Session → Session → Prop) (P : Task → Prop) (action : Render (List Task)) : Prop :=
  ∀ s, match action s with
  | .ok more s' => R s s' ∧ ∀ task ∈ more, P task
  | .error _ s' => R s s'

section

variable {R : Session → Session → Prop} {P : Task → Prop} {α : Type}

theorem forall_mem_nil : ∀ u ∈ [], P u := fun _ hu => absurd hu List.not_mem_nil

theorem forall_mem_singleton {task : Task} (h : P task) : ∀ u ∈ [task], P u := by
  intro u hu
  rwa [List.mem_singleton.mp hu]

theorem forall_mem_pair {task task' : Task} (h : P task) (h' : P task') :
    ∀ u ∈ [task, task'], P u := by
  rintro u (_ | ⟨_, hu⟩)
  · exact h
  · exact forall_mem_singleton h' u hu

theorem hands_andThen {x : Render α} {tasks : α → List Task} (hx : Along R x)
    (htasks : ∀ s a s', x s = .ok a s' → ∀ task ∈ tasks a, P task) :
    Hands R P (x >>= fun a => pure (tasks a)) := by
  intro s
  have hs := hx s
  cases h : x s with
  | ok a s' =>
    rw [after_of_ok h] at hs
    rw [bind_of_ok h]
    exact ⟨hs, htasks s a s' h⟩
  | error e s' =>
    rw [after_of_error h] at hs
    rwa [bind_of_error h]

theorem Hands.mono {R' : Session → Session → Prop} {P' : Task → Prop}
    {action : Render (List Task)} (h : Hands R P action) (hR : ∀ s s', R s s' → R' s s')
    (hP : ∀ task, P task → P' task) : Hands R' P' action := by
  intro s
  have hs := h s
  cases hresult : action s with
  | ok more s' =>
    rw [hresult] at hs
    exact ⟨hR s s' hs.1, fun task htask => hP task (hs.2 task htask)⟩
  | error e s' =>
    rw [hresult] at hs
    exact hR s s' hs

theorem hands_once {action : Render (List Task)} {x : Render α} {tasks : List Task}
    (haction : action = x >>= fun _ => pure tasks) (hx : Along R x)
    (htasks : ∀ task ∈ tasks, P task) : Hands R P action := by
  rw [haction]
  exact hands_andThen hx fun _ _ _ _ => htasks

end

/-! ## Minor changes -/

theorem minorChange_refl (s : Session) : MinorChange s s := ⟨⟨rfl, rfl, rfl, rfl⟩, rfl⟩

theorem minorChange_trans ⦃s s' s'' : Session⦄ (h : MinorChange s s') (h' : MinorChange s' s'') :
    MinorChange s s'' :=
  ⟨⟨h'.template.trans h.template, h'.isPartial.trans h.isPartial, h'.depth.trans h.depth,
    h'.chain.trans h.chain⟩, h'.lastChanged.trans h.lastChanged⟩

section

variable {env : Environment} {α : Type}

theorem Still.minorChange {action : Render α} (h : Still action) : Along MinorChange action :=
  h.along minorChange_refl

theorem minorChange_write (text : String) : Along MinorChange (write text) :=
  fun _ => ⟨⟨rfl, rfl, rfl, rfl⟩, rfl⟩

theorem minorChange_bind (name : String) (v : Value) : Along MinorChange (bind name v) :=
  fun _ => ⟨⟨rfl, rfl, rfl, rfl⟩, rfl⟩

theorem minorChange_advance (owner : LoopOwner) (index0 : Nat) (name : String) (v : Value) :
    Along MinorChange (advance owner index0 name v) := fun _ => ⟨⟨rfl, rfl, rfl, rfl⟩, rfl⟩

theorem minorChange_output (line : Option Int) (e : Expr) :
    Along MinorChange (evaluate env line e >>= fun v => writeValue env v) :=
  (still_evaluate env line e).minorChange.andThen minorChange_trans fun v =>
    .writeValue env minorChange_refl minorChange_write v

theorem minorChange_assign (line : Option Int) (e : Expr) (name : String) :
    Along MinorChange (evaluate env line e >>= fun v => bind name v) :=
  (still_evaluate env line e).minorChange.andThen minorChange_trans fun _ => minorChange_bind _ _

theorem minorChange_needs (line : Int) (i : Inclusion) :
    Along MinorChange (needs env line i) := by
  refine readsMore_needs.mono ?_
  rintro s _ ⟨_, _, rfl⟩
  exact ⟨⟨rfl, rfl, rfl, rfl⟩, rfl⟩

/-! ## Tasks -/

theorem name_ne_of_nameIn {i : Inclusion} {v : Value} {setting : Setting} {name : String}
    (h : nameIn i v setting = .ok name) : name ≠ "" := by
  rintro rfl
  by_cases hmissing : v = .nil ∨ v.equals setting.host (.text "")
  · rw [nameIn_of_missing hmissing] at h
    cases h
  by_cases htext : ∃ text, v = .text text
  · obtain ⟨text, rfl⟩ := htext
    rw [not_or] at hmissing
    rw [nameIn_text hmissing.2] at h
    cases h
    exact hmissing.2 rfl
  · have htype : ∀ text, v ≠ .text text := fun text hv => htext ⟨text, hv⟩
    rw [nameIn_of_type hmissing htype] at h
    cases h

theorem name_ne_of_needs {line : Int} {i : Inclusion} {s s' : Session} {name : String}
    {t : Template} {v : Value} (h : needs env line i s = .ok (name, t, v) s') : name ≠ "" := by
  obtain ⟨name', s₁, hname, h⟩ := bind_eq_ok.mp h
  obtain ⟨_, _, -, h⟩ := bind_eq_ok.mp h
  obtain ⟨_, _, -, h⟩ := bind_eq_ok.mp h
  obtain rfl : name' = name := by
    cases h
    rfl
  rw [partialName_eq] at hname
  obtain ⟨w, _, -, hname⟩ := bind_eq_ok.mp hname
  exact name_ne_of_nameIn (evaluating_eq_ok.mp hname).1

theorem Task.IsFresh.isInner {task : Task} (h : task.IsFresh) : task.IsInner := by
  cases task <;> first | exact h | exact trivial

theorem hands_beginNode (node : Node) :
    Hands MinorChange Task.IsFresh (beginNode env node) := by
  cases node with
  | text line value => exact hands_once rfl (minorChange_write _) forall_mem_nil
  | output line markup e =>
    exact hands_once (bind_assoc _ _ _).symm (minorChange_output _ _) forall_mem_nil
  | raw line name body => exact hands_once rfl (minorChange_write _) forall_mem_nil
  | comment line name body => exact fun s => ⟨minorChange_refl s, forall_mem_nil⟩
  | assign line assignment =>
    exact hands_once (bind_assoc _ _ _).symm (minorChange_assign _ _ _) forall_mem_nil
  | ifChanged line body =>
    exact fun s => ⟨⟨⟨rfl, rfl, rfl, rfl⟩, rfl⟩, by simp [Task.IsFresh, Task.IsInner]⟩
  | conditional line isNegated branches otherwise =>
    exact fun s => ⟨minorChange_refl s, forall_mem_singleton trivial⟩
  | loop line head body otherwise =>
    refine hands_andThen (still_loopItems env _ _).minorChange fun s items s' _ => ?_
    split <;> exact forall_mem_singleton trivial
  | inclusion line i =>
    refine hands_andThen (minorChange_needs _ _) fun s found s' hfound => ?_
    exact forall_mem_singleton (name_ne_of_needs hfound)
  | inline line tag markup =>
    have hlook : Along MinorChange (get >>= fun s => write (tag.write markup s.view)) :=
      still_get.minorChange.andThen minorChange_trans fun _ => minorChange_write _
    exact hands_once (bind_assoc _ _ _).symm hlook forall_mem_nil

theorem hands_carryOut {task : Task} (h : task.isOrdinary) :
    Hands MinorChange Task.IsFresh (task.carryOut env) := by
  cases task with
  | node node => exact hands_beginNode node
  | nodes ns =>
    cases ns with
    | nil => exact fun s => ⟨minorChange_refl s, forall_mem_nil⟩
    | cons n ns => exact fun s => ⟨minorChange_refl s, forall_mem_pair trivial trivial⟩
  | branches line isNegated branches otherwise =>
    cases branches with
    | nil => exact fun s => ⟨minorChange_refl s, forall_mem_singleton trivial⟩
    | cons branch rest =>
      refine hands_andThen (still_evaluating env _ _).minorChange fun s holds s' _ => ?_
      split <;> exact forall_mem_singleton trivial
  | loop name body vs =>
    exact fun s => ⟨⟨⟨rfl, rfl, rfl, rfl⟩, rfl⟩, forall_mem_pair trivial trivial⟩
  | items owner name body index0 vs =>
    cases vs with
    | nil => exact fun s => ⟨minorChange_refl s, forall_mem_nil⟩
    | cons v vs =>
      exact hands_once rfl (minorChange_advance _ _ _ _) (forall_mem_pair trivial trivial)
  | attributes line attributes =>
    cases attributes with
    | nil => exact fun s => ⟨minorChange_refl s, forall_mem_nil⟩
    | cons first rest =>
      exact hands_once (bind_assoc _ _ _).symm (minorChange_assign _ _ _)
        (forall_mem_singleton trivial)
  | each name body vs =>
    cases vs with
    | nil => exact fun s => ⟨minorChange_refl s, forall_mem_nil⟩
    | cons v vs => exact hands_once rfl (minorChange_bind _ _) (forall_mem_pair trivial trivial)
  | leaveFrame => exact fun s => ⟨⟨⟨rfl, rfl, rfl, rfl⟩, rfl⟩, forall_mem_nil⟩
  | _ => cases h

/-- Only the entry to a partial and the way out of one lead to another place. -/
theorem hands_inside {task : Task} (hentry : ∀ line i name t v, task ≠ .entry line i name t v)
    (hleave : ∀ t isPartial d chain, task ≠ .leavePartial t isPartial d chain) :
    Hands SamePartial Task.IsInner (task.carryOut env) := by
  by_cases hordinary : task.isOrdinary
  · exact (hands_carryOut hordinary).mono (fun _ _ => MinorChange.toSamePartial) fun _ =>
      Task.IsFresh.isInner
  · cases task with
    | changed text =>
      have hplace : Along SamePartial (writeChanged text) :=
        (lasting_samePlace.writeChanged text).mono fun _ _ h =>
          ⟨h.template, h.isPartial, h.depth, h.chain⟩
      exact hands_once rfl hplace forall_mem_nil
    | leaveCapture outer => exact fun s => ⟨⟨rfl, rfl, rfl, rfl⟩, forall_mem_singleton trivial⟩
    | entry line i name t v => exact absurd rfl (hentry line i name t v)
    | leavePartial t isPartial d chain => exact absurd rfl (hleave t isPartial d chain)
    | _ => exact absurd rfl hordinary

theorem minorChange_undo {task : Task}
    (hleave : ∀ t isPartial d chain, task ≠ .leavePartial t isPartial d chain) (s : Session) :
    MinorChange s (task.undo s) := by
  cases task with
  | leavePartial t isPartial d chain => exact absurd rfl (hleave t isPartial d chain)
  | _ => exact ⟨⟨rfl, rfl, rfl, rfl⟩, rfl⟩

end

end Render

end Stencil
