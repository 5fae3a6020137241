import Stencil.Proofs.Condition.Failure
import Stencil.Proofs.Render.Nesting

/-!
# Why a task fails

What a task evaluates, and all the ways in which it fails.
-/

namespace Stencil.Render

open Markup Session

/-- The action, begun in this session, ends with this error. -/
def Raises {α : Type} (action : Render α) (s : Session) (error : Error) : Prop :=
  ∃ s', action s = .error error s'

/-! ## Actions that fail -/

section

variable {env : Environment} {α β : Type} {s : Session} {error : Error}

theorem raises_bind {x : Render α} {f : α → Render β} :
    Raises (x >>= f) s error ↔
      Raises x s error ∨ ∃ a s', x s = .ok a s' ∧ Raises (f a) s' error := by
  unfold Raises
  show (∃ s', EStateM.bind x f s = .error error s') ↔ _
  unfold EStateM.bind
  cases x s with
  | ok a s' =>
    constructor
    · intro h
      exact .inr ⟨a, s', rfl, h⟩
    · rintro (⟨_, h⟩ | ⟨_, _, h, hf⟩)
      · cases h
      · cases h
        exact hf
  | error e s' => simp

theorem not_raises_pure {a : α} : ¬ Raises (pure a) s error := by
  rintro ⟨s', h⟩
  cases h

theorem raises_andReturn {x : Render α} {g : α → β} :
    Raises (x >>= fun a => pure (g a)) s error ↔ Raises x s error := by
  rw [raises_bind]
  constructor
  · rintro (h | ⟨a, s', -, h⟩)
    · exact h
    · exact absurd h not_raises_pure
  · exact .inl

theorem evaluating_eq_ok {line : Option Int} {f : Setting → Except Error α} {a : α}
    {s' : Session} :
    evaluating env line f s = .ok a s' ↔ f (s.setting env line) = .ok a ∧ s = s' := by
  unfold evaluating
  cases f (s.setting env line) with
  | ok a => simp
  | error e => simp

theorem raises_evaluating {line : Option Int} {f : Setting → Except Error α} :
    Raises (evaluating env line f) s error ↔ f (s.setting env line) = .error error := by
  unfold Raises evaluating
  cases f (s.setting env line) with
  | ok a => simp
  | error e => simp

theorem raises_evaluate_bind {line : Option Int} {e : Expr} {f : Value → Render β} :
    Raises (evaluate env line e >>= f) s error ↔
      e.eval (s.setting env line) = .error error ∨
      ∃ v, e.eval (s.setting env line) = .ok v ∧ Raises (f v) s error := by
  rw [raises_bind]
  refine or_congr raises_evaluating ?_
  constructor
  · rintro ⟨v, s', hv, h⟩
    obtain ⟨hvalue, rfl⟩ := evaluating_eq_ok.mp hv
    exact ⟨v, hvalue, h⟩
  · rintro ⟨v, hvalue, h⟩
    exact ⟨v, s, evaluate_of_ok env hvalue, h⟩

/-! ## Loops -/

/-- An expression that cannot serve as a limit or an offset. -/
inductive Unfit (setting : Setting) (e : Expr) (error : Error) : Prop
  | value : e.eval setting = .error error → Unfit setting e error
  | whole {v : Value} : e.eval setting = .ok v → v ≠ .nil →
    setting.whole (setting.argumentError v) v = .error error → Unfit setting e error

/-- The offset of a loop comes after its collection, and the limit after both. -/
inductive ReachesArgument (env : Environment) (s : Session) (line : Int) (head : LoopHead) :
    Expr → Prop
  | offset {v : Value} {items : List Value} {e : Expr} :
    head.collection.eval (s.setting env (some line)) = .ok v → v.items? env.host = .ok items →
    head.offset = some e → ReachesArgument env s line head e
  | limit {v : Value} {items : List Value} {offset : Option Int} {e : Expr} :
    head.collection.eval (s.setting env (some line)) = .ok v → v.items? env.host = .ok items →
    loopArgument env line head.offset s = .ok offset s → head.limit = some e →
    ReachesArgument env s line head e

theorem loopArgument_some (line : Int) (e : Expr) :
    loopArgument env line (some e) = evaluate env (some line) e >>= fun v =>
      match v with
      | .nil => pure none
      | v => evaluating env (some line) fun setting =>
          (setting.whole (setting.argumentError v) v).map some := rfl

theorem raises_whole {line : Int} {v : Value} (hv : v ≠ .nil) :
    Raises (match v with
      | .nil => pure none
      | v => evaluating env (some line) fun setting =>
          (setting.whole (setting.argumentError v) v).map some) s error ↔
      (s.setting env (some line)).whole ((s.setting env (some line)).argumentError v) v =
        .error error := by
  have hmap : ∀ x : Except Error Int, x.map some = .error error ↔ x = .error error := by
    intro x
    cases x <;> simp [Except.map]
  cases v with
  | nil => exact absurd rfl hv
  | _ => exact raises_evaluating.trans (hmap _)

theorem raises_loopArgument {line : Int} {argument : Option Expr} :
    Raises (loopArgument env line argument) s error ↔
      ∃ e, argument = some e ∧ Unfit (s.setting env (some line)) e error := by
  cases argument with
  | none =>
    constructor
    · intro h
      exact absurd h not_raises_pure
    · rintro ⟨e, h, -⟩
      cases h
  | some e =>
    rw [loopArgument_some, raises_evaluate_bind]
    constructor
    · rintro (h | ⟨v, hv, h⟩)
      · exact ⟨e, rfl, .value h⟩
      · by_cases hnil : v = .nil
        · subst hnil
          exact absurd h not_raises_pure
        · exact ⟨e, rfl, .whole hv hnil ((raises_whole hnil).mp h)⟩
    · rintro ⟨e', he, hunfit⟩
      cases he
      cases hunfit with
      | value h => exact .inl h
      | whole hv hnil h => exact .inr ⟨_, hv, (raises_whole hnil).mpr h⟩

theorem eq_of_loopArgument {line : Int} {argument : Option Expr} {n : Option Int} {s' : Session}
    (h : loopArgument env line argument s = .ok n s') : s = s' :=
  (still_loopArgument env line argument s).trans (after_of_ok h)

theorem raises_loopItems {line : Int} {head : LoopHead} :
    Raises (loopItems env line head) s error ↔
      head.collection.eval (s.setting env (some line)) = .error error ∨
      (∃ v o, head.collection.eval (s.setting env (some line)) = .ok v ∧
        v.items? env.host = .error o ∧ error = .overflow o) ∨
      ∃ e, ReachesArgument env s line head e ∧ Unfit (s.setting env (some line)) e error := by
  unfold loopItems
  rw [raises_evaluate_bind]
  refine or_congr_right ?_
  constructor
  · rintro ⟨v, hv, h⟩
    cases hitems : v.items? env.host with
    | error o =>
      rw [hitems] at h
      obtain ⟨s', h⟩ := h
      cases h
      exact .inl ⟨v, o, hv, hitems, rfl⟩
    | ok items =>
      rw [hitems] at h
      refine .inr ?_
      obtain h | ⟨offset, s₁, hoffset, h⟩ := raises_bind.mp h
      · obtain ⟨e, he, hunfit⟩ := raises_loopArgument.mp h
        exact ⟨e, .offset hv hitems he, hunfit⟩
      · obtain rfl := eq_of_loopArgument hoffset
        obtain ⟨e, he, hunfit⟩ := raises_loopArgument.mp (raises_andReturn.mp h)
        exact ⟨e, .limit hv hitems hoffset he, hunfit⟩
  · rintro (⟨v, o, hv, hitems, rfl⟩ | ⟨e, hreaches, hunfit⟩)
    · refine ⟨v, hv, ?_⟩
      rw [hitems]
      exact ⟨s, rfl⟩
    · cases hreaches with
      | @offset v items e hv hitems he =>
        refine ⟨v, hv, ?_⟩
        rw [hitems]
        exact raises_bind.mpr (.inl (raises_loopArgument.mpr ⟨e, he, hunfit⟩))
      | @limit v items n e hv hitems hoffset he =>
        refine ⟨v, hv, ?_⟩
        rw [hitems]
        refine raises_bind.mpr (.inr ⟨n, s, hoffset, ?_⟩)
        exact raises_andReturn.mpr (raises_loopArgument.mpr ⟨e, he, hunfit⟩)

/-! ## Inclusions -/

/-- The name that a value is, as a tag asks for it. -/
def nameIn (i : Inclusion) (v : Value) (setting : Setting) : Except Error String :=
  if (v matches .nil) || v.equals setting.host (.text "") then
    .error (setting.fault .missingName (some i.markup))
  else match v with
    | .text name => .ok name
    | v => .error (setting.fault (.nameType v.typeName) (some i.markup))

theorem partialName_eq (env : Environment) (line : Int) (i : Inclusion) :
    partialName env line i =
      evaluate env (some line) i.template >>= fun v => evaluating env (some line) (nameIn i v) :=
  rfl

/-- A value that is not the name of a partial. -/
inductive Misnames (setting : Setting) (i : Inclusion) (v : Value) : Error → Prop
  | missing : v = .nil ∨ v.equals setting.host (.text "") →
    Misnames setting i v (setting.fault .missingName (some i.markup))
  | type : ¬ (v = .nil ∨ v.equals setting.host (.text "")) → (∀ name, v ≠ .text name) →
    Misnames setting i v (setting.fault (.nameType v.typeName) (some i.markup))

section

variable {setting : Setting} {i : Inclusion} {v : Value}

theorem nameIn_of_missing (h : v = .nil ∨ v.equals setting.host (.text "")) :
    nameIn i v setting = .error (setting.fault .missingName (some i.markup)) := by
  rcases h with rfl | h
  · rfl
  · unfold nameIn
    rw [h, Bool.or_true, if_pos rfl]

theorem nameIn_text {name : String} (h : ¬ (Value.text name).equals setting.host (.text "")) :
    nameIn i (.text name) setting = .ok name := by
  unfold nameIn
  rw [Bool.not_eq_true] at h
  rw [h]
  rfl

theorem nameIn_of_type (h : ¬ (v = .nil ∨ v.equals setting.host (.text "")))
    (htype : ∀ name, v ≠ .text name) :
    nameIn i v setting = .error (setting.fault (.nameType v.typeName) (some i.markup)) := by
  rw [not_or, Bool.not_eq_true] at h
  obtain ⟨hnil, hempty⟩ := h
  unfold nameIn
  rw [hempty]
  cases v with
  | nil => exact absurd rfl hnil
  | text name => exact absurd rfl (htype name)
  | _ => rfl

theorem nameIn_eq_error_iff : nameIn i v setting = .error error ↔ Misnames setting i v error := by
  constructor
  · intro h
    by_cases hmissing : v = .nil ∨ v.equals setting.host (.text "")
    · rw [nameIn_of_missing hmissing] at h
      cases h
      exact .missing hmissing
    by_cases htext : ∃ name, v = .text name
    · obtain ⟨name, rfl⟩ := htext
      rw [not_or] at hmissing
      rw [nameIn_text hmissing.2] at h
      cases h
    · have htype : ∀ name, v ≠ .text name := fun name hname => htext ⟨name, hname⟩
      rw [nameIn_of_type hmissing htype] at h
      cases h
      exact .type hmissing htype
  · intro h
    cases h with
    | missing h => exact nameIn_of_missing h
    | type h htype => exact nameIn_of_type h htype

end

theorem raises_partialName {line : Int} {i : Inclusion} :
    Raises (partialName env line i) s error ↔
      i.template.eval (s.setting env (some line)) = .error error ∨
      ∃ v, i.template.eval (s.setting env (some line)) = .ok v ∧
        Misnames (s.setting env (some line)) i v error := by
  rw [partialName_eq, raises_evaluate_bind]
  simp only [raises_evaluating, nameIn_eq_error_iff]

theorem raises_loadPartial {name : String} :
    Raises (loadPartial env name) s error ↔
      s.partials.lookup name = none ∧ env.load name true = .error error := by
  cases hknown : s.partials.lookup name with
  | some t => simp [Raises, loadPartial_of_known hknown]
  | none =>
    cases hload : env.load name true with
    | ok t => simp [Raises, loadPartial_of_found hknown hload]
    | error e => simp [Raises, loadPartial_of_failed hknown hload]

theorem raises_boundValue {line : Int} {i : Inclusion} {name : String} :
    Raises (boundValue env line i name) s error ↔
      ∃ e, i.bound = some e ∧ e.eval (s.setting env (some line)) = .error error := by
  unfold boundValue
  split
  · next e he => simp [he, evaluate, raises_evaluating]
  · next he =>
    constructor
    · intro h
      obtain ⟨s', h⟩ | ⟨s₁, s₂, hget, h⟩ := raises_bind.mp h
      · cases h
      · cases hget
        split at h <;> exact absurd h not_raises_pure
    · rintro ⟨e, h, -⟩
      rw [he] at h
      cases h

theorem setting_of_loadPartial {name : String} {t : Template} {s' : Session}
    (h : loadPartial env name s = .ok t s') (line : Option Int) :
    s'.setting env line = s.setting env line := by
  obtain ⟨reads, partials, rfl⟩ : ReadsMore s s' :=
    after_of_ok h ▸ readsMore_loadPartial env name s
  rfl

theorem raises_needs {line : Int} {i : Inclusion} :
    Raises (needs env line i) s error ↔
      Raises (partialName env line i) s error ∨
      ∃ name, partialName env line i s = .ok name s ∧
        (Raises (loadPartial env name) s error ∨
        ∃ t s' e, loadPartial env name s = .ok t s' ∧ i.bound = some e ∧
          e.eval (s.setting env (some line)) = .error error) := by
  unfold needs
  rw [raises_bind]
  refine or_congr_right ?_
  constructor
  · rintro ⟨name, s₁, hname, h⟩
    obtain rfl : s = s₁ := after_of_ok hname ▸ still_partialName env line i s
    refine ⟨name, hname, ?_⟩
    obtain h | ⟨t, s', hload, h⟩ := raises_bind.mp h
    · exact .inl h
    · obtain ⟨e, he, h⟩ := raises_boundValue.mp (raises_andReturn.mp h)
      rw [setting_of_loadPartial hload] at h
      exact .inr ⟨t, s', e, hload, he, h⟩
  · rintro ⟨name, hname, h⟩
    refine ⟨name, s, hname, ?_⟩
    obtain h | ⟨t, s', e, hload, he, h⟩ := h
    · exact raises_bind.mpr (.inl h)
    · refine raises_bind.mpr (.inr ⟨t, s', hload, ?_⟩)
      rw [← setting_of_loadPartial hload] at h
      exact raises_andReturn.mpr (raises_boundValue.mpr ⟨e, he, h⟩)

end

/-! ## Tasks -/

/-- In this session, a task evaluates an expression for a tag on this line. -/
inductive Task.Evaluates (env : Environment) (s : Session) : Task → Int → Expr → Prop
  | output {line : Nat} {markup : String} {e : Expr} :
    Evaluates env s (.node (.output line markup e)) line e
  | assign {line : Nat} {assignment : Assignment} :
    Evaluates env s (.node (.assign line assignment)) line assignment.source
  | condition {line : Nat} {isNegated : Bool} {chain : Chain} {body : List Node}
    {rest : List (Chain × List Node)} {otherwise : List Node} {condition : Condition} {e : Expr} :
    chain.Reaches (s.setting env (some line)) condition →
    condition.Evaluates (s.setting env (some line)) e →
    Evaluates env s (.branches line isNegated ((chain, body) :: rest) otherwise) line e
  | collection {line : Nat} {head : LoopHead} {body otherwise : List Node} :
    Evaluates env s (.node (.loop line head body otherwise)) line head.collection
  | argument {line : Nat} {head : LoopHead} {body otherwise : List Node} {e : Expr} :
    ReachesArgument env s line head e →
    Evaluates env s (.node (.loop line head body otherwise)) line e
  | name {line : Nat} {i : Inclusion} : Evaluates env s (.node (.inclusion line i)) line i.template
  | bound {line : Nat} {i : Inclusion} {name : String} {t : Template} {s' : Session} {e : Expr} :
    partialName env line i s = .ok name s → loadPartial env name s = .ok t s' →
    i.bound = some e → Evaluates env s (.node (.inclusion line i)) line e
  | attribute {line : Int} {key : String} {e : Expr} {rest : List (String × Expr)} :
    Evaluates env s (.attributes line ((key, e) :: rest)) line e

/-- All the ways in which a task fails in this session. -/
inductive Task.Fails (env : Environment) (s : Session) : Task → Error → Prop
  | evaluation {task : Task} {line : Int} {e : Expr} {error : Error} :
    task.Evaluates env s line e → e.eval (s.setting env (some line)) = .error error →
    Fails env s task error
  | comparison {line : Nat} {isNegated : Bool} {chain : Chain} {body : List Node}
    {rest : List (Chain × List Node)} {otherwise : List Node} {condition : Condition}
    {error : Error} : chain.Reaches (s.setting env (some line)) condition →
    condition.Miscompares (s.setting env (some line)) error →
    Fails env s (.branches line isNegated ((chain, body) :: rest) otherwise) error
  | output {line : Nat} {markup : String} {e : Expr} {v : Value} :
    e.eval (s.setting env (some line)) = .ok v → v.output? env.host = none →
    Fails env s (.node (.output line markup e)) (.overflow .unwritable)
  | items {line : Nat} {head : LoopHead} {body otherwise : List Node} {v : Value} {o : Overflow} :
    head.collection.eval (s.setting env (some line)) = .ok v → v.items? env.host = .error o →
    Fails env s (.node (.loop line head body otherwise)) (.overflow o)
  | argument {line : Nat} {head : LoopHead} {body otherwise : List Node} {e : Expr} {v : Value}
    {error : Error} : ReachesArgument env s line head e →
    e.eval (s.setting env (some line)) = .ok v → v ≠ .nil →
    (s.setting env (some line)).whole ((s.setting env (some line)).argumentError v) v =
      .error error →
    Fails env s (.node (.loop line head body otherwise)) error
  | name {line : Nat} {i : Inclusion} {v : Value} {error : Error} :
    i.template.eval (s.setting env (some line)) = .ok v →
    Misnames (s.setting env (some line)) i v error →
    Fails env s (.node (.inclusion line i)) error
  | load {line : Nat} {i : Inclusion} {name : String} {error : Error} :
    partialName env line i s = .ok name s → s.partials.lookup name = none →
    env.load name true = .error error → Fails env s (.node (.inclusion line i)) error
  | depth {line : Int} {i : Inclusion} {name : String} {t : Template} {v : Value} :
    env.maxDepth ≤ s.depth → Fails env s (.entry line i name t v) (tooDeep env name line s)

section

variable {env : Environment} {s : Session} {error : Error}

theorem raises_loop {line : Nat} {head : LoopHead} {body otherwise : List Node} :
    Raises (loopItems env line head) s error ↔
      Task.Fails env s (.node (.loop line head body otherwise)) error := by
  rw [raises_loopItems]
  constructor
  · rintro (h | ⟨v, o, hv, hitems, rfl⟩ | ⟨e, hreaches, h | ⟨hv, hnil, h⟩⟩)
    · exact .evaluation .collection h
    · exact .items hv hitems
    · exact .evaluation (.argument hreaches) h
    · exact .argument hreaches hv hnil h
  · intro h
    cases h with
    | evaluation hevaluates h =>
      cases hevaluates with
      | collection => exact .inl h
      | argument hreaches => exact .inr (.inr ⟨_, hreaches, .value h⟩)
    | items hv hitems => exact .inr (.inl ⟨_, _, hv, hitems, rfl⟩)
    | argument hreaches hv hnil h => exact .inr (.inr ⟨_, hreaches, .whole hv hnil h⟩)

theorem raises_inclusion {line : Nat} {i : Inclusion} :
    Raises (needs env line i) s error ↔ Task.Fails env s (.node (.inclusion line i)) error := by
  rw [raises_needs, raises_partialName]
  constructor
  · rintro ((h | ⟨v, hv, h⟩) | ⟨name, hname, h | ⟨t, s', e, hload, he, h⟩⟩)
    · exact .evaluation .name h
    · exact .name hv h
    · obtain ⟨hunknown, hload⟩ := raises_loadPartial.mp h
      exact .load hname hunknown hload
    · exact .evaluation (.bound hname hload he) h
  · intro h
    cases h with
    | evaluation hevaluates h =>
      cases hevaluates with
      | name => exact .inl (.inl h)
      | bound hname hload he => exact .inr ⟨_, hname, .inr ⟨_, _, _, hload, he, h⟩⟩
    | name hv h => exact .inl (.inr ⟨_, hv, h⟩)
    | load hname hunknown hload =>
      exact .inr ⟨_, hname, .inl (raises_loadPartial.mpr ⟨hunknown, hload⟩)⟩

theorem raises_branch {line : Nat} {isNegated : Bool} {chain : Chain} {body : List Node}
    {rest : List (Chain × List Node)} {otherwise : List Node} :
    Raises (evaluating env (some (line : Int)) chain.eval) s error ↔
      Task.Fails env s (.branches line isNegated ((chain, body) :: rest) otherwise) error := by
  rw [raises_evaluating, Chain.eval_eq_error_iff]
  constructor
  · rintro ⟨condition, hreaches, h⟩
    obtain ⟨e, hevaluates, h⟩ | h := Condition.eval_eq_error_iff.mp h
    · exact .evaluation (.condition hreaches hevaluates) h
    · exact .comparison hreaches h
  · intro h
    cases h with
    | evaluation hevaluates h =>
      cases hevaluates with
      | condition hreaches hevaluates =>
        exact ⟨_, hreaches, Condition.eval_eq_error_iff.mpr (.inl ⟨_, hevaluates, h⟩)⟩
    | comparison hreaches h => exact ⟨_, hreaches, Condition.eval_eq_error_iff.mpr (.inr h)⟩

theorem raises_one {task : Task} {line : Int} {e : Expr} {f : Value → Render (List Task)}
    (hf : ∀ v, ¬ Raises (f v) s error) (hevaluates : task.Evaluates env s line e)
    (honly : task.Fails env s error → e.eval (s.setting env (some line)) = .error error) :
    Raises (evaluate env (some line) e >>= f) s error ↔ task.Fails env s error := by
  rw [raises_evaluate_bind]
  constructor
  · rintro (h | ⟨v, -, h⟩)
    · exact .evaluation hevaluates h
    · exact absurd h (hf v)
  · intro h
    exact .inl (honly h)

theorem raises_writeValue {v : Value} :
    Raises (writeValue env v) s error ↔
      v.output? env.host = none ∧ error = .overflow .unwritable := by
  unfold writeValue
  split
  · next text htext =>
    refine iff_of_false ?_ fun h => ?_
    · rintro ⟨s', h⟩
      cases h
    · cases htext.symm.trans h.1
  · next hnone =>
    constructor
    · rintro ⟨s', h⟩
      cases h
      exact ⟨hnone, rfl⟩
    · rintro ⟨-, rfl⟩
      exact ⟨s, rfl⟩

theorem raises_output {line : Nat} {markup : String} {e : Expr} :
    Raises ((Task.node (.output line markup e)).carryOut env) s error ↔
      Task.Fails env s (.node (.output line markup e)) error := by
  refine raises_evaluate_bind.trans ?_
  constructor
  · rintro (h | ⟨v, hv, h⟩)
    · exact .evaluation .output h
    · obtain ⟨hnone, rfl⟩ := raises_writeValue.mp (raises_andReturn.mp h)
      exact .output hv hnone
  · intro h
    cases h with
    | evaluation hevaluates h =>
      cases hevaluates
      exact .inl h
    | output hv hnone =>
      exact .inr ⟨_, hv, raises_andReturn.mpr (raises_writeValue.mpr ⟨hnone, rfl⟩)⟩

def Task.mayFail : Task → Bool
  | .node (.output ..) => true
  | .node (.assign ..) => true
  | .node (.loop ..) => true
  | .node (.inclusion ..) => true
  | .branches _ _ (_ :: _) _ => true
  | .attributes _ (_ :: _) => true
  | .entry .. => true
  | _ => false

theorem Task.Fails.mayFail {task : Task} (h : task.Fails env s error) : task.mayFail := by
  cases h with
  | evaluation hevaluates _ => cases hevaluates <;> rfl
  | _ => rfl

theorem not_raises_writeChanged {text : String} : ¬ Raises (writeChanged text) s error := by
  rintro ⟨s', h⟩
  change (if s.lastChanged = some text then pure () else _ : Render Unit) s = _ at h
  by_cases hlast : s.lastChanged = some text
  · rw [if_pos hlast] at h
    cases h
  · rw [if_neg hlast] at h
    cases h

theorem not_raises_carryOut {task : Task} (h : ¬ task.mayFail) :
    ¬ Raises (task.carryOut env) s error := by
  rintro ⟨s', herror⟩
  cases task with
  | node node => cases node <;> first | exact absurd rfl h | cases herror
  | branches line isNegated branches otherwise =>
    cases branches <;> first | exact absurd rfl h | cases herror
  | attributes line attributes => cases attributes <;> first | exact absurd rfl h | cases herror
  | nodes ns => cases ns <;> cases herror
  | items owner name body index0 vs => cases vs <;> cases herror
  | each name body vs => cases vs <;> cases herror
  | entry line i name t v => exact absurd rfl h
  | changed text => exact not_raises_writeChanged (raises_andReturn.mp ⟨s', herror⟩)
  | _ => cases herror

theorem raises_entry {line : Int} {i : Inclusion} {name : String} {t : Template} {v : Value} :
    Raises (enterPartial env line i name t v) s error ↔
      Task.Fails env s (.entry line i name t v) error := by
  unfold Raises enterPartial
  constructor
  · rintro ⟨s', h⟩
    by_cases hroom : env.maxDepth ≤ s.depth
    · rw [if_pos hroom] at h
      cases h
      exact .depth hroom
    · rw [if_neg hroom] at h
      cases h
  · intro h
    cases h with
    | evaluation hevaluates _ => cases hevaluates
    | depth hroom =>
      rw [if_pos hroom]
      exact ⟨s, rfl⟩

/-- A task fails exactly in the ways that are listed. -/
theorem raises_carryOut_iff {task : Task} :
    Raises (task.carryOut env) s error ↔ task.Fails env s error := by
  by_cases hmay : task.mayFail
  · cases task with
    | node node =>
      cases node with
      | output line markup e => exact raises_output
      | assign line assignment =>
        refine raises_one (fun v h => ?_) .assign fun h => ?_
        · obtain ⟨s', h⟩ := h
          cases h
        · cases h with
          | evaluation hevaluates h =>
            cases hevaluates
            exact h
      | loop line head body otherwise => exact raises_andReturn.trans raises_loop
      | inclusion line i => exact raises_andReturn.trans raises_inclusion
      | _ => cases hmay
    | branches line isNegated branches otherwise =>
      cases branches with
      | nil => cases hmay
      | cons branch rest => exact raises_andReturn.trans raises_branch
    | attributes line attributes =>
      cases attributes with
      | nil => cases hmay
      | cons first rest =>
        refine raises_one (fun v h => ?_) .attribute fun h => ?_
        · obtain ⟨s', h⟩ := h
          cases h
        · cases h with
          | evaluation hevaluates h =>
            cases hevaluates
            exact h
    | entry line i name t v => exact raises_entry
    | _ => cases hmay
  · -- Of the other tasks, none raises anything and none is listed.
    refine iff_of_false (not_raises_carryOut hmay) ?_
    intro h
    exact hmay h.mayFail

end

end Stencil.Render
