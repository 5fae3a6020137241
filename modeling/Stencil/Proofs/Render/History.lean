import Mathlib.Logic.Relation
import Stencil.Proofs.Render.Course

/-!
# The partials of a session

A session may see one rendering after the other and calls for partials in between, while the
templates behind the loader change. What it reads it reads once, and it never lets go of it.
-/

namespace Stencil

open Markup

theorem Environment.load_of_ok {env : Environment} {name : String} {isPartial : Bool} {t : Template}
    (h : env.load name isPartial = .ok t) : t.name = some name ∧ t.isPartial = isPartial := by
  unfold Environment.load at h
  cases hsource : env.getSource name with
  | error e =>
    rw [hsource] at h
    cases h
  | ok source =>
    rw [hsource] at h
    change env.parse source.text (some name) source.file isPartial = .ok t at h
    unfold Environment.parse Template.parse at h
    generalize Node.ofTokens _ _ _ = parsed at h
    cases parsed with
    | error e => cases e <;> cases h
    | ok nodes =>
      cases h
      exact ⟨rfl, rfl⟩

namespace Render

open Session Moment

/-! ## What is read at a moment -/

structure ReadsNothing (s s' : Session) : Prop where
  reads : s'.reads = s.reads
  partials : s'.partials = s.partials

/--
The loader is asked for one partial at most, and for none that the session has. What can be read is
kept.
-/
inductive Reads (env : Environment) (s s' : Session) : Prop
  | nothing : ReadsNothing s s' → Reads env s s'
  | found (name : String) (t : Template) : s.partials.lookup name = none →
    env.load name true = .ok t → s'.reads = s.reads ++ [name] →
    s'.partials = s.partials ++ [(name, t)] → Reads env s s'
  | failed (name : String) (e : Error) : s.partials.lookup name = none →
    env.load name true = .error e → s'.reads = s.reads ++ [name] →
    s'.partials = s.partials → Reads env s s'

section

variable {env : Environment} {α : Type}

theorem lasting_readsNothing : Lasting ReadsNothing where
  refl s := ⟨rfl, rfl⟩
  trans _ _ _ h h' := ⟨h'.reads.trans h.reads, h'.partials.trans h.partials⟩
  write _ _ := ⟨rfl, rfl⟩
  bind _ _ _ := ⟨rfl, rfl⟩
  moveOn _ _ _ := ⟨rfl, rfl⟩
  remember _ _ := ⟨rfl, rfl⟩
  inFrame {action} h s := by
    have hs := h { s with scope := s.scope.push [] }
    rw [after_inFrame]
    exact ⟨hs.reads, hs.partials⟩
  capture {action} h s := by
    have hs := h { s with output := "" }
    rw [after_capture]
    exact ⟨hs.reads, hs.partials⟩
  insidePartial {name line action} h s := by
    rw [after_insidePartial]
    exact ⟨(h _).reads, (h _).partials⟩

theorem reads_refl (s : Session) : Reads env s s := .nothing ⟨rfl, rfl⟩

theorem reads_loadPartial (name : String) : Along (Reads env) (loadPartial env name) := by
  intro s
  cases hknown : s.partials.lookup name with
  | some t =>
    rw [after_of_ok (loadPartial_of_known hknown)]
    exact reads_refl s
  | none =>
    cases hload : env.load name true with
    | ok t =>
      rw [after_of_ok (loadPartial_of_found hknown hload)]
      -- Where there is no loader, no partial can be read.
      have hloader : env.loader.isSome := by
        unfold Environment.load Environment.getSource at hload
        cases hl : env.loader with
        | none =>
          rw [hl] at hload
          cases hload
        | some loader => rfl
      refine .found name t hknown hload ?_ rfl
      unfold asked
      rw [if_pos hloader]
    | error e =>
      rw [after_of_error (loadPartial_of_failed hknown hload)]
      unfold asked
      split
      · exact .failed name e hknown hload rfl rfl
      · exact reads_refl s

theorem reads_needs (line : Int) (i : Inclusion) : Along (Reads env) (needs env line i) := by
  refine .afterStill reads_refl (still_partialName env line i) fun name => ?_
  refine (reads_loadPartial name).beforeStill fun t => ?_
  exact (still_boundValue env line i name).andThen fun v => still_pure _

/-! ## Tasks -/

theorem reads_carryOut (task : Task) : Along (Reads env) (task.carryOut env) := by
  by_cases hinside : task.isInside
  · exact (lasting_readsNothing.carryOut hinside).mono fun s s' => .nothing
  · intro s
    cases task with
    | node node =>
      cases node with
      | inclusion line i => exact (reads_needs line i).beforeStill (fun _ => still_pure _) s
      | ifChanged line body => exact .nothing ⟨rfl, rfl⟩
      | _ => exact absurd rfl hinside
    | entry line i name t v =>
      show Reads env s (after (enterPartial env line i name t v) s)
      unfold after enterPartial
      by_cases hroom : env.maxDepth ≤ s.depth
      · rw [if_pos hroom]
        exact .nothing ⟨rfl, rfl⟩
      · rw [if_neg hroom]
        exact .nothing ⟨rfl, rfl⟩
    | loop name body vs => exact .nothing ⟨rfl, rfl⟩
    | leaveFrame => exact .nothing ⟨rfl, rfl⟩
    | leaveCapture outer => exact .nothing ⟨rfl, rfl⟩
    | leavePartial template isPartial depth chain => exact .nothing ⟨rfl, rfl⟩
    | _ => exact absurd rfl hinside

theorem readsNothing_undo (task : Task) (s : Session) : ReadsNothing s (task.undo s) := by
  cases task <;> exact ⟨rfl, rfl⟩

theorem reads_next (m : Moment) : Reads env m.session (m.next env).session := by
  obtain ⟨tasks, s, error⟩ := m
  cases tasks with
  | nil => exact reads_refl s
  | cons task rest =>
    cases error with
    | some e => exact .nothing (readsNothing_undo task s)
    | none =>
      have hs : Reads env s (after (task.carryOut env) s) := reads_carryOut task s
      unfold after at hs
      show Reads env s (ofResult rest (task.carryOut env s)).session
      cases hresult : task.carryOut env s <;> rwa [hresult] at hs

end

/-! ## The life of a session -/

/--
A rendering goes on; or it is over, and another one begins or a partial is called for. The
environment is what it is at this moment.
-/
inductive Happens (env : Environment) (m : Moment) : Moment → Prop
  | goesOn : Happens env m (m.next env)
  | begins (ns : List Node) : m.isLast → Happens env m (first ns m.session)
  | callsFor (name : String) : m.isLast →
    Happens env m ⟨[], after (loadPartial env name) m.session, none⟩

/-- One moment comes after another, or is the same, whatever the environments in between. -/
def Later : Moment → Moment → Prop := Relation.ReflTransGen fun m m' => ∃ env, Happens env m m'

theorem reads_of_happens {env : Environment} {m m' : Moment} (h : Happens env m m') :
    Reads env m.session m'.session := by
  cases h with
  | goesOn => exact reads_next m
  | begins ns => exact reads_refl _
  | callsFor name => exact reads_loadPartial name _

/-! ## What is kept -/

/-- Each partial is kept once, under its own name. -/
structure KeepsInOrder (s : Session) : Prop where
  names : (s.partials.map (·.1)).Nodup
  partials : ∀ name t, (name, t) ∈ s.partials → t.name = some name ∧ t.isPartial

section

variable {env : Environment} {s s' : Session} {name : String} {t : Template}

theorem not_mem_names (h : s.partials.lookup name = none) : name ∉ s.partials.map (·.1) := by
  intro hname
  obtain ⟨⟨name', t⟩, hmem, rfl⟩ := List.mem_map.mp hname
  have hne := List.lookup_eq_none_iff.mp h _ hmem
  simp at hne

theorem KeepsInOrder.reads (hs : KeepsInOrder s) (h : Reads env s s') : KeepsInOrder s' := by
  cases h with
  | nothing h => exact ⟨h.partials ▸ hs.names, h.partials ▸ hs.partials⟩
  | failed name e hunknown hload hreads hpartials =>
    exact ⟨hpartials ▸ hs.names, hpartials ▸ hs.partials⟩
  | found name t hunknown hload hreads hpartials =>
    constructor
    · rw [hpartials, List.map_append, List.nodup_append]
      refine ⟨hs.names, List.pairwise_singleton _ _, ?_⟩
      rintro other hother _ hname rfl
      rw [List.mem_singleton.mp hname] at hother
      exact not_mem_names hunknown hother
    · intro other t' hmem
      rw [hpartials, List.mem_append, List.mem_singleton] at hmem
      rcases hmem with hmem | hmem
      · exact hs.partials other t' hmem
      · cases hmem
        exact Environment.load_of_ok hload

theorem partials_of_reads (h : Reads env s s') : s.partials <+: s'.partials := by
  cases h with
  | nothing h => exact h.partials ▸ List.prefix_rfl
  | failed name e _ _ _ hpartials => exact hpartials ▸ List.prefix_rfl
  | found name t _ _ _ hpartials => exact hpartials ▸ List.prefix_append _ _

theorem lookup_of_prefix (h : s.partials <+: s'.partials)
    (hname : s.partials.lookup name = some t) : s'.partials.lookup name = some t := by
  obtain ⟨more, hmore⟩ := h
  rw [← hmore, List.lookup_append, hname]
  rfl

theorem reads_ne_of_known (h : Reads env s s') (hname : s.partials.lookup name = some t) :
    s'.reads ≠ s.reads ++ [name] := by
  intro hreads
  cases h with
  | nothing h =>
    rw [h.reads] at hreads
    simp at hreads
  | found other _ hunknown _ hreads' | failed other _ hunknown _ hreads' =>
    obtain rfl : other = name := by simpa using hreads'.symm.trans hreads
    rw [hname] at hunknown
    cases hunknown

end

/-! ## Whole lives -/

section

variable {m m' : Moment} {name : String} {t : Template}

theorem KeepsInOrder.later (hs : KeepsInOrder m.session) (h : Later m m') :
    KeepsInOrder m'.session := by
  induction h with
  | refl => exact hs
  | tail _ h ih =>
    obtain ⟨env, h⟩ := h
    exact ih.reads (reads_of_happens h)

theorem partials_of_later (h : Later m m') : m.session.partials <+: m'.session.partials := by
  induction h with
  | refl => exact List.prefix_rfl
  | tail _ h ih =>
    obtain ⟨env, h⟩ := h
    exact ih.trans (partials_of_reads (reads_of_happens h))

theorem needs_of_known {env : Environment} {s s' : Session} {line : Int} {i : Inclusion}
    {p : Template} {v : Value} (hname : s.partials.lookup name = some t)
    (h : needs env line i s = .ok (name, p, v) s') : p = t := by
  obtain ⟨name', s₁, hpartialName, h⟩ := bind_eq_ok.mp h
  obtain rfl : s = s₁ := after_of_ok hpartialName ▸ still_partialName env line i s
  obtain ⟨p', s₂, hload, h⟩ := bind_eq_ok.mp h
  obtain ⟨v', s₃, -, h⟩ := bind_eq_ok.mp h
  obtain ⟨rfl, rfl, rfl⟩ : name' = name ∧ p' = p ∧ v' = v := by
    cases h
    exact ⟨rfl, rfl, rfl⟩
  rw [loadPartial_of_known hname] at hload
  cases hload
  rfl

end

/-! ## Calls from outside -/

/-- What a host may ask of a session. -/
inductive Call
  | render (nodes : List Node)
  | load (name : String)

def Call.perform (env : Environment) : Call → Session → Session
  | .render ns, s => after (nodes env ns) s
  | .load name, s => after (loadPartial env name) s

/-- One call after the other, each in an environment of its own. -/
def performAll (s : Session) (calls : List (Environment × Call)) : Session :=
  calls.foldl (fun s (env, call) => call.perform env s) s

theorem later_of_leads {env : Environment} {m m' : Moment} (h : Leads env m m') : Later m m' :=
  h.keeps (Later m) (fun _ hm => hm.tail ⟨env, .goesOn⟩) .refl

theorem session_ended (rest : List Task) (action : Render Unit) (s : Session) :
    (ended rest (action s)).session = after action s := by
  unfold after
  cases action s <;> rfl

theorem exists_later_perform {m : Moment} (hm : m.isLast) (env : Environment) (call : Call) :
    ∃ m', Later m m' ∧ m'.isLast ∧ m'.session = call.perform env m.session := by
  cases call with
  | render ns =>
    refine ⟨ended [] (nodes env ns m.session), ?_, ?_⟩
    · have hbegins : Later m (first ns m.session) := .single ⟨env, .begins ns hm⟩
      exact hbegins.trans (later_of_leads (leads_nodes env ns m.session))
    · exact ⟨isLast_ended _, session_ended _ _ _⟩
  | load name => exact ⟨_, .single ⟨env, .callsFor name hm⟩, rfl, rfl⟩

theorem exists_later_performAll (calls : List (Environment × Call)) {m : Moment} (hm : m.isLast) :
    ∃ m', Later m m' ∧ m'.isLast ∧ m'.session = performAll m.session calls := by
  induction calls generalizing m with
  | nil => exact ⟨m, .refl, hm, rfl⟩
  | cons first rest ih =>
    obtain ⟨env, call⟩ := first
    obtain ⟨m₁, hfirst, hm₁, hsession⟩ := exists_later_perform hm env call
    obtain ⟨m', hrest, hm', hsession'⟩ := ih hm₁
    refine ⟨m', hfirst.trans hrest, hm', ?_⟩
    rw [hsession', hsession]
    rfl

/--
Over the whole life of a session, the loader is only asked for what the session does not have; what
can be read is kept once and under its own name, and stays; what cannot be read leaves no trace but
that the loader was asked. So the loader is not asked again for what is kept, and every inclusion
renders it. Calls from outside, in any number and order, are such a life.
-/
theorem partials_are_read_once (env : Environment) (bindings : Frame) (template : Option String) :
    let s := Session.start env bindings template
    (∀ calls, ∃ m, Later ⟨[], s, none⟩ m ∧ m.isLast ∧ m.session = performAll s calls) ∧
    ∀ m, Later ⟨[], s, none⟩ m →
      KeepsInOrder m.session ∧
      (∀ env m', Happens env m m' → Reads env m.session m'.session) ∧
      (∀ env name, m.session.partials.lookup name = none →
        loadPartial env name m.session =
          match env.load name true with
          | .ok t => .ok t { asked env name m.session with
              partials := m.session.partials ++ [(name, t)] }
          | .error e => .error e (asked env name m.session)) ∧
      ∀ m' name t, Later m m' → m.session.partials.lookup name = some t →
        m'.session.partials.lookup name = some t ∧
        (∀ env, loadPartial env name m'.session = .ok t m'.session) ∧
        (∀ env m'', Happens env m' m'' → m''.session.reads ≠ m'.session.reads ++ [name]) ∧
        ∀ env line i p v s', needs env line i m'.session = .ok (name, p, v) s' → p = t := by
  intro s
  refine ⟨fun calls => exists_later_performAll calls rfl, fun m hm => ⟨?_, ?_, ?_, ?_⟩⟩
  · have hs : KeepsInOrder s := ⟨List.nodup_nil, nofun⟩
    exact hs.later hm
  · intro env m' h
    exact reads_of_happens h
  · intro env name hunknown
    cases hload : env.load name true with
    | ok t => exact loadPartial_of_found hunknown hload
    | error e => exact loadPartial_of_failed hunknown hload
  · intro m' name t hlater hname
    have hstill : m'.session.partials.lookup name = some t :=
      lookup_of_prefix (partials_of_later hlater) hname
    refine ⟨hstill, ?_, ?_, ?_⟩
    · intro env
      exact loadPartial_of_known hstill
    · intro env m'' h
      exact reads_ne_of_known (reads_of_happens h) hstill
    · intro env line i p v s' h
      exact needs_of_known hstill h

theorem kept_partial_outlives_loader :
    ∃ m, Later ⟨[], Session.start selfIncluding [] none, none⟩ m ∧
      m.session.partials.lookup "self" = some selfIncludingPartial ∧
      loadPartial { selfIncluding with loader := none } "self" m.session =
        .ok selfIncludingPartial m.session := by
  obtain ⟨hcalls, hlife⟩ := partials_are_read_once selfIncluding [] none
  obtain ⟨m, hm, -, hsession⟩ := hcalls [(selfIncluding, .load "self")]
  have hload : selfIncluding.load "self" true = .ok selfIncludingPartial := by
    with_unfolding_all rfl
  have hcall : m.session = after (loadPartial selfIncluding "self")
      (Session.start selfIncluding [] none) := hsession
  have hkept : m.session.partials.lookup "self" = some selfIncludingPartial := by
    rw [hcall, after_of_ok (loadPartial_of_found rfl hload)]
    rfl
  obtain ⟨-, -, -, hstays⟩ := hlife m hm
  obtain ⟨-, hfound, -⟩ := hstays m "self" selfIncludingPartial .refl hkept
  exact ⟨m, hm, hkept, hfound _⟩

end Render

end Stencil
