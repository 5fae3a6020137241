import Mathlib.Data.List.Destutter
import Stencil.Proofs.Render.History
import Stencil.Proofs.Render.Step

/-!
# Blocks that suppress repetition

Over the whole life of a session two lists are kept: the texts of the repeat-suppressing blocks, in
the order in which their bodies are complete, and the texts among them that are passed on. The
session remembers the last of the first list, and the second is the first without repetition.
-/

namespace Stencil.Render

open Session Moment

/-! ## Lists without repetition -/

section

variable {α : Type} [DecidableEq α]

theorem destutter'_concat (a : α) (l : List α) (b : α) :
    (l ++ [b]).destutter' (· ≠ ·) a =
      if (a :: l).getLast? = some b then l.destutter' (· ≠ ·) a
      else l.destutter' (· ≠ ·) a ++ [b] := by
  induction l generalizing a with
  | nil => by_cases h : a = b <;> simp [h]
  | cons c l ih =>
    rw [List.cons_append, List.getLast?_cons_cons]
    by_cases h : a = c
    · subst h
      have hsame : ¬ a ≠ a := not_not.mpr rfl
      rw [List.destutter'_cons_neg _ hsame, List.destutter'_cons_neg _ hsame]
      exact ih a
    · rw [List.destutter'_cons_pos _ h, List.destutter'_cons_pos _ h, ih c]
      split <;> rfl

theorem destutter_concat (l : List α) (b : α) :
    (l ++ [b]).destutter (· ≠ ·) =
      if l.getLast? = some b then l.destutter (· ≠ ·) else l.destutter (· ≠ ·) ++ [b] := by
  cases l with
  | nil => rfl
  | cons a l => exact destutter'_concat a l b

end

/-! ## Blocks that are complete -/

/-- The text of a block the body of which is complete at this moment. -/
def Moment.completed? (m : Moment) : Option String :=
  match m.tasks, m.error with
  | .changed text :: _, none => some text
  | _, _ => none

/-- The texts of the blocks that are complete, and those among them that were passed on. -/
structure Blocks where
  completed : List String
  passed : List String

def Blocks.suppress (b : Blocks) (text : String) : Blocks :=
  ⟨b.completed ++ [text], b.passed⟩

def Blocks.passOn (b : Blocks) (text : String) : Blocks :=
  ⟨b.completed ++ [text], b.passed ++ [text]⟩

/--
The life of a session that begins with `s`, with the blocks in it. A block that is complete is
suppressed if its text changes nothing.
-/
inductive Lived (s : Session) : Moment → Blocks → Prop
  | begins : Lived s ⟨[], s, none⟩ ⟨[], []⟩
  | happens {m m' : Moment} {b : Blocks} {env : Environment} : Lived s m b → Happens env m m' →
    m.completed? = none → Lived s m' b
  | suppresses {m m' : Moment} {b : Blocks} {env : Environment} {text : String} : Lived s m b →
    Happens env m m' → m.completed? = some text → m'.session = m.session →
    Lived s m' (b.suppress text)
  | passesOn {m m' : Moment} {b : Blocks} {env : Environment} {text : String} : Lived s m b →
    Happens env m m' → m.completed? = some text → m'.session ≠ m.session →
    Lived s m' (b.passOn text)

section

variable {env : Environment} {m m' : Moment} {s : Session} {b : Blocks} {text : String}

theorem Lived.step (hb : Lived s m b) (h : Happens env m m') :
    ∃ b', Lived s m' b' ∧ b.completed <+: b'.completed := by
  cases hcompleted : m.completed? with
  | none => exact ⟨b, .happens hb h hcompleted, List.prefix_rfl⟩
  | some text =>
    by_cases hsame : m'.session = m.session
    · exact ⟨_, .suppresses hb h hcompleted hsame, List.prefix_append _ _⟩
    · exact ⟨_, .passesOn hb h hcompleted hsame, List.prefix_append _ _⟩

theorem exists_lived (h : Later ⟨[], s, none⟩ m) : ∃ b, Lived s m b := by
  induction h with
  | refl => exact ⟨_, .begins⟩
  | tail _ h ih =>
    obtain ⟨b, hb⟩ := ih
    obtain ⟨env, h⟩ := h
    obtain ⟨b', hb', -⟩ := hb.step h
    exact ⟨b', hb'⟩

theorem Lived.leads (hb : Lived s m b) (h : Leads env m m') :
    ∃ b', Lived s m' b' ∧ b.completed <+: b'.completed := by
  refine h.keeps (fun m => ∃ b', Lived s m b' ∧ b.completed <+: b'.completed) ?_
    ⟨b, hb, List.prefix_rfl⟩
  rintro m ⟨b₁, hb₁, hprefix⟩
  obtain ⟨b₂, hb₂, hprefix'⟩ := hb₁.step (.goesOn : Happens env m (m.next env))
  exact ⟨b₂, hb₂, hprefix.trans hprefix'⟩

/-! ## One moment -/

theorem exists_of_completed? (h : m.completed? = some text) :
    ∃ rest, m = ⟨.changed text :: rest, m.session, none⟩ := by
  obtain ⟨tasks, s, error⟩ := m
  unfold completed? at h
  split at h
  · next rest htasks herror =>
    cases htasks
    cases herror
    cases h
    exact ⟨rest, rfl⟩
  · cases h

/-- What is passed on is remembered, and what is remembered is not passed on. -/
theorem writeChanged_eq :
    writeChanged text s = .ok () (if s.lastChanged = some text then s
      else { s with output := s.output ++ text, lastChanged := some text }) := by
  show (if s.lastChanged = some text then pure ()
    else modify (fun s => { s with lastChanged := some text }) >>= fun _ => write text :
      Render Unit) s = _
  split <;> rfl

theorem session_of_completed? (h : m.completed? = some text) :
    (m.next env).session =
      if m.session.lastChanged = some text then m.session
      else { m.session with
        output := m.session.output ++ text, lastChanged := some text } := by
  obtain ⟨rest, hm⟩ := exists_of_completed? h
  rw [hm]
  show (ofResult rest ((writeChanged text >>= fun _ => pure []) m.session)).session = _
  rw [bind_of_ok writeChanged_eq]
  rfl

theorem lastChanged_carryOut {task : Task} {rest : List Task}
    (h : Moment.completed? ⟨task :: rest, s, none⟩ = none) :
    (Moment.next env ⟨task :: rest, s, none⟩).session.lastChanged = s.lastChanged := by
  by_cases hordinary : task.isOrdinary
  · have hs := (hands_carryOut hordinary : Hands MinorChange Task.IsFresh (task.carryOut env)) s
    show (ofResult rest (task.carryOut env s)).session.lastChanged = _
    cases hresult : task.carryOut env s with
    | ok more s' =>
      rw [hresult] at hs
      exact hs.1.lastChanged
    | error e s' =>
      rw [hresult] at hs
      exact hs.lastChanged
  · cases task with
    | entry line i name t v =>
      rw [next_entry]
      split <;> rfl
    | leavePartial template isPartial depth chain => rfl
    | leaveCapture outer => rfl
    | changed text => cases h
    | _ => exact absurd rfl hordinary

theorem lastChanged_of_happens (h : Happens env m m') (hcompleted : m.completed? = none) :
    m'.session.lastChanged = m.session.lastChanged := by
  cases h with
  | goesOn =>
    obtain ⟨tasks, s, error⟩ := m
    cases tasks with
    | nil => rfl
    | cons task rest =>
      cases error with
      | none => exact lastChanged_carryOut hcompleted
      | some e => cases task <;> rfl
  | begins ns => rfl
  | callsFor name =>
    obtain ⟨reads, partials, hreads⟩ := readsMore_loadPartial env name m.session
    show (after (loadPartial env name) m.session).lastChanged = _
    rw [hreads]

theorem eq_next_of_happens (h : Happens env m m') (hcompleted : m.completed? = some text) :
    m' = m.next env := by
  obtain ⟨rest, hm⟩ := exists_of_completed? hcompleted
  cases h with
  | goesOn => rfl
  | begins ns hlast | callsFor name hlast =>
    rw [hm] at hlast
    cases hlast

/-! ## Where a block becomes complete -/

/-- No block is complete but by the first task. -/
def Moment.CompletesFirst (m : Moment) : Prop := ∀ text, .changed text ∉ m.tasks.tail

theorem more_of_carryOut {task : Task} {more : List Task} {s' : Session}
    (h : task.carryOut env s = .ok more s') :
    (∀ text, .changed text ∉ more) ∨
      ∃ outer, task = .leaveCapture outer ∧ more = [.changed s.output] := by
  by_cases hordinary : task.isOrdinary
  · have hs := (hands_carryOut hordinary : Hands MinorChange Task.IsFresh (task.carryOut env)) s
    rw [h] at hs
    exact .inl fun text htext => hs.2 _ htext
  · cases task with
    | entry line i name t v =>
      change (if env.maxDepth ≤ s.depth then refuse env name line s
        else .ok (entryTasks line i name t v s) (entered name line s)) = _ at h
      split at h
      · cases h
      · cases h
        exact .inl fun text => by simp [entryTasks]
    | leavePartial template isPartial depth chain =>
      cases h
      exact .inl fun text => List.not_mem_nil
    | leaveCapture outer =>
      cases h
      exact .inr ⟨outer, rfl, rfl⟩
    | changed text =>
      change (writeChanged text >>= fun _ => pure []) s = _ at h
      rw [bind_of_ok writeChanged_eq] at h
      cases h
      exact .inl fun text => List.not_mem_nil
    | _ => exact absurd rfl hordinary

theorem completesFirst_of_not_mem (h : ∀ text, .changed text ∉ m.tasks) :
    m.CompletesFirst ∧ ∀ text, m.completed? ≠ some text := by
  refine ⟨fun text htail => h text (List.mem_of_mem_tail htail), fun text hcompleted => ?_⟩
  obtain ⟨rest, hm⟩ := exists_of_completed? hcompleted
  have htasks : m.tasks = .changed text :: rest := congrArg Moment.tasks hm
  exact absurd (htasks ▸ List.mem_cons_self) (h text)

theorem Moment.CompletesFirst.next (hm : m.CompletesFirst) :
    (m.next env).CompletesFirst ∧ ∀ text, (m.next env).completed? = some text →
      ∃ outer rest, m = ⟨.leaveCapture outer :: rest, m.session, none⟩ ∧
        text = m.session.output := by
  obtain ⟨tasks, s, error⟩ := m
  cases tasks with
  | nil => exact ⟨hm, nofun⟩
  | cons task rest =>
    have hrest : ∀ text, .changed text ∉ rest := hm
    cases error with
    | some e =>
      obtain ⟨hfirst, hnone⟩ : Moment.CompletesFirst ⟨rest, task.undo s, some e⟩ ∧ _ :=
        completesFirst_of_not_mem hrest
      exact ⟨hfirst, fun text h => absurd h (hnone text)⟩
    | none =>
      show (ofResult rest (task.carryOut env s)).CompletesFirst ∧
        ∀ text, (ofResult rest (task.carryOut env s)).completed? = some text → _
      cases hresult : task.carryOut env s with
      | error e s' =>
        obtain ⟨hfirst, hnone⟩ : Moment.CompletesFirst ⟨rest, s', some e⟩ ∧ _ :=
          completesFirst_of_not_mem hrest
        exact ⟨hfirst, fun text h => absurd h (hnone text)⟩
      | ok more s' =>
        rcases more_of_carryOut hresult with hmore | ⟨outer, rfl, rfl⟩
        · have hall : ∀ text, .changed text ∉ more ++ rest := fun text h =>
            (List.mem_append.mp h).elim (hmore text) (hrest text)
          obtain ⟨hfirst, hnone⟩ : Moment.CompletesFirst ⟨more ++ rest, s', none⟩ ∧ _ :=
            completesFirst_of_not_mem hall
          exact ⟨hfirst, fun text h => absurd h (hnone text)⟩
        · refine ⟨hrest, fun text h => ?_⟩
          cases h
          exact ⟨outer, rest, rfl, rfl⟩

theorem captured_of_happens (hm : m.CompletesFirst) (h : Happens env m m') :
    m'.CompletesFirst ∧ ∀ text, m'.completed? = some text →
      ∃ outer rest, m = ⟨.leaveCapture outer :: rest, m.session, none⟩ ∧
        text = m.session.output := by
  cases h with
  | goesOn => exact hm.next
  | begins ns => exact ⟨fun text => List.not_mem_nil, nofun⟩
  | callsFor name => exact ⟨fun text => List.not_mem_nil, nofun⟩

theorem Lived.completesFirst (h : Lived s m b) : m.CompletesFirst := by
  induction h with
  | begins => exact fun text => List.not_mem_nil
  | happens _ h _ ih => exact (captured_of_happens ih h).1
  | suppresses _ h _ _ ih => exact (captured_of_happens ih h).1
  | passesOn _ h _ _ ih => exact (captured_of_happens ih h).1

/-! ## Whole lives -/

/-- What the session remembers, and what it let through. -/
structure Blocks.InOrder (b : Blocks) (s : Session) : Prop where
  last : s.lastChanged = b.completed.getLast?
  passed : b.passed = b.completed.destutter (· ≠ ·)

theorem Blocks.InOrder.completed (h : b.InOrder m.session) (hcompleted : m.completed? = some text) :
    (m.next env).session =
      if b.completed.getLast? = some text then m.session
      else { m.session with
        output := m.session.output ++ text, lastChanged := some text } := by
  rw [session_of_completed? hcompleted, h.last]

theorem Lived.inOrder (h : Lived s m b) (hs : s.lastChanged = none) : b.InOrder m.session := by
  induction h with
  | begins => exact ⟨hs, rfl⟩
  | happens _ h hcompleted ih =>
    exact ⟨(lastChanged_of_happens h hcompleted).trans ih.last, ih.passed⟩
  | @suppresses m m' b env text _ h hcompleted hsame ih =>
    rw [eq_next_of_happens h hcompleted, ih.completed hcompleted] at hsame
    -- If the text were another than the last one, the session would remember it.
    have hrepeated : b.completed.getLast? = some text := by
      by_contra hnew
      rw [if_neg hnew] at hsame
      exact hnew (ih.last.symm.trans (congrArg lastChanged hsame).symm)
    rw [eq_next_of_happens h hcompleted, ih.completed hcompleted, if_pos hrepeated]
    refine ⟨?_, ?_⟩
    · rw [ih.last, hrepeated]
      exact List.getLast?_concat.symm
    · exact ih.passed.trans ((destutter_concat _ _).trans (if_pos hrepeated)).symm
  | @passesOn m m' b env text _ h hcompleted hother ih =>
    rw [eq_next_of_happens h hcompleted, ih.completed hcompleted] at hother
    have hnew : b.completed.getLast? ≠ some text := fun hrepeated => hother (if_pos hrepeated)
    rw [eq_next_of_happens h hcompleted, ih.completed hcompleted, if_neg hnew]
    refine ⟨List.getLast?_concat.symm, ?_⟩
    show b.passed ++ [text] = _
    rw [ih.passed]
    exact ((destutter_concat _ _).trans (if_neg hnew)).symm

end

/-! ## One block -/

/-- Where a block leads when its body is over. -/
def afterBody (rest : List Task) (s : Session) : EStateM.Result Error Session Unit → Moment
  | .ok () s' =>
    ⟨.changed s'.output :: rest, { s' with output := s.output, scope := s'.scope.dropTop }, none⟩
  | .error e s' => ⟨rest, { s' with output := s.output, scope := s'.scope.dropTop }, some e⟩

theorem leads_to_afterBody (env : Environment) (line : Nat) (body : List Node) (rest : List Task)
    (s : Session) :
    Leads env ⟨.node (.ifChanged line body) :: rest, s, none⟩
      (afterBody rest s (nodes env body { s with output := "", scope := s.scope.push [] })) := by
  have hbody : Leads env
      ⟨.nodes body :: .leaveFrame :: .leaveCapture s.output :: rest,
        { s with output := "", scope := s.scope.push [] }, none⟩
      (ended (.leaveFrame :: .leaveCapture s.output :: rest)
        (nodes env body { s with output := "", scope := s.scope.push [] })) :=
    does_within env (room env s) s.depth rfl body _ _ rfl
  refine Leads.task (hbody.trans ?_)
  cases nodes env body { s with output := "", scope := s.scope.push [] } with
  | ok a s' => exact Leads.task (Leads.task .refl)
  | error e s' => exact Leads.undo (Leads.undo .refl)

/--
Over the whole life of a session, a repeat-suppressing block is complete when what it captured goes
back out. It passes its text on exactly if that is not the text of the block that was complete
before it, and the session remembers the text of the last block that was complete. So no text is
passed on twice in a row. A block the body of which fails passes nothing of it on; what the session
remembers is what the blocks inside left.
-/
theorem blocks_suppress_repetition (env : Environment) (bindings : Frame)
    (template : Option String) :
    let s := Session.start env bindings template
    (∀ calls, ∃ m b, Lived s m b ∧ m.isLast ∧ m.session = performAll s calls) ∧
    (∀ m, Later ⟨[], s, none⟩ m → ∃ b, Lived s m b) ∧
    ∀ m b, Lived s m b →
      m.session.lastChanged = b.completed.getLast? ∧
      b.passed = b.completed.destutter (· ≠ ·) ∧
      b.passed.IsChain (· ≠ ·) ∧
      (∀ env m' text, Happens env m m' → m'.completed? = some text →
        ∃ outer rest, m = ⟨.leaveCapture outer :: rest, m.session, none⟩ ∧
          text = m.session.output) ∧
      (∀ env text, m.completed? = some text →
        (m.next env).session =
          if b.completed.getLast? = some text then m.session
          else { m.session with
            output := m.session.output ++ text, lastChanged := some text }) ∧
      ∀ env line body rest s₁, m = ⟨.node (.ifChanged line body) :: rest, s₁, none⟩ →
        let m' := afterBody rest s₁
          (nodes env body { s₁ with output := "", scope := s₁.scope.push [] })
        Leads env m m' ∧ ∃ b', Lived s m' b' ∧ b.completed <+: b'.completed := by
  intro s
  refine ⟨fun calls => ?_, fun m hm => exists_lived hm, fun m b hb => ?_⟩
  · have hstart : Moment.isLast ⟨[], s, none⟩ := rfl
    obtain ⟨m, hm, hlast, hsession⟩ := exists_later_performAll calls hstart
    obtain ⟨b, hb⟩ := exists_lived hm
    exact ⟨m, b, hb, hlast, hsession⟩
  · have horder : b.InOrder m.session := hb.inOrder rfl
    refine ⟨horder.last, horder.passed, ?_, ?_, fun env text => horder.completed, ?_⟩
    · rw [horder.passed]
      exact List.isChain_destutter _ _
    · intro env m' text h
      exact (captured_of_happens hb.completesFirst h).2 text
    · rintro env line body rest s₁ rfl
      have hleads := leads_to_afterBody env line body rest s₁
      exact ⟨hleads, hb.leads hleads⟩

end Stencil.Render
