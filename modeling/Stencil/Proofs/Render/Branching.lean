import Stencil.Proofs.Expr.Line
import Stencil.Proofs.Render.Turns

/-!
# The branches of a conditional

A conditional asks one condition after the other, each at most once and in the session in which it
began, and stops at the first one that lets its branch be rendered. So it does what two-way
conditionals do, each of which is all there is in the `else` part of the one before it.
-/

namespace Stencil.Render

open Moment Bond

/-! ## Branches and their places -/

/-- The condition leaves its branch out: it does not hold, or it does where it is negated. -/
def isPassedOver (setting : Setting) (isNegated : Bool) (condition : Chain) : Bool :=
  match condition.eval setting with
  | .ok holds => holds == isNegated
  | .error _ => false

/-- All of these branches are passed over. Only the first of them may be negated. -/
def arePassedOver (setting : Setting) (isNegated : Bool) : List (Chain × List Node) → Bool
  | [] => true
  | (condition, _) :: rest =>
    isPassedOver setting isNegated condition && arePassedOver setting false rest

/-- A conditional asks the first condition of these branches, before the tasks `rest`. -/
def Asks (branches : List (Chain × List Node)) (rest : List Task) (m : Moment) : Prop :=
  m.error = none ∧ ∃ line isNegated otherwise,
    m.tasks = .branches line isNegated branches otherwise :: rest

/-- A conditional with one condition, for what to render if it holds and what to render if not. -/
def twoWay (line : Nat) (condition : Chain) (body otherwise : List Node) : Node :=
  .conditional line false [(condition, body)] otherwise

/-- Two-way conditionals, each on its line, in the `else` parts of one another. -/
def nested : List (Nat × Chain × List Node) → List Node → List Node
  | [], otherwise => otherwise
  | (line, condition, body) :: rest, otherwise =>
    [twoWay line condition body (nested rest otherwise)]

/-- A conditional with these branches, if there are any. -/
def remaining (line : Nat) (branches : List (Chain × List Node)) (otherwise : List Node) :
    List Node :=
  if branches.isEmpty then otherwise else [.conditional line false branches otherwise]

section

variable {env : Environment} {line : Nat} {isNegated : Bool} {condition : Chain}
  {body otherwise : List Node} {branches more : List (Chain × List Node)} {rest : List Task}
  {s : Session} {holds : Bool} {e : Error}

/-! ## One branch after the other -/

theorem next_branches_of_ok (h : condition.eval (s.setting env (some line)) = .ok holds) :
    next env ⟨.branches line isNegated ((condition, body) :: more) otherwise :: rest, s, none⟩ =
      ⟨(if holds != isNegated then .nodes body else .branches line false more otherwise) :: rest,
        s, none⟩ := by
  have hasked : evaluating env (some (line : Int)) condition.eval s = .ok holds s :=
    evaluating_eq_ok.mpr ⟨h, rfl⟩
  show ofResult rest ((evaluating env (some (line : Int)) condition.eval >>= fun _ => _) s) = _
  rw [bind_of_ok hasked]
  split <;> rfl

theorem next_branches_of_error (h : condition.eval (s.setting env (some line)) = .error e) :
    next env ⟨.branches line isNegated ((condition, body) :: more) otherwise :: rest, s, none⟩ =
      ⟨rest, s, some e⟩ := by
  have hasked : evaluating env (some (line : Int)) condition.eval s = .error e s := by
    rw [evaluating, h]
  show ofResult rest ((evaluating env (some (line : Int)) condition.eval >>= fun _ => _) s) = _
  rw [bind_of_error hasked]
  rfl

theorem leads_before (env : Environment) (ns : List Node) (s : Session) (rest : List Task) :
    Leads env ⟨.nodes ns :: rest, s, none⟩ (ended rest (nodes env ns s)) :=
  does_within env (room env s) s.depth rfl ns s rest rfl

theorem exists_leads_branches (env : Environment) (line : Nat) (isNegated : Bool)
    (branches : List (Chain × List Node)) (otherwise : List Node) (s : Session) :
    ∃ r, ∀ rest,
      Leads env ⟨.branches line isNegated branches otherwise :: rest, s, none⟩ (ended rest r) := by
  induction branches generalizing isNegated with
  | nil => exact ⟨_, fun rest => .step (leads_before env otherwise s rest)⟩
  | cons branch more ih =>
    obtain ⟨condition, body⟩ := branch
    cases h : condition.eval (s.setting env (some (line : Int))) with
    | error e =>
      refine ⟨.error e s, fun rest => .step ?_⟩
      rw [next_branches_of_error h]
      exact .refl
    | ok holds =>
      by_cases hholds : holds != isNegated
      · refine ⟨nodes env body s, fun rest => .step ?_⟩
        rw [next_branches_of_ok h, if_pos hholds]
        exact leads_before env body s rest
      · obtain ⟨r, hr⟩ := ih false
        refine ⟨r, fun rest => .step ?_⟩
        rw [next_branches_of_ok h, if_neg hholds]
        exact hr rest

theorem leads_branches (env : Environment) (line : Nat) (isNegated : Bool)
    (branches : List (Chain × List Node)) (otherwise : List Node) (s : Session)
    (rest : List Task) :
    Leads env ⟨.branches line isNegated branches otherwise :: rest, s, none⟩
      (ended rest (nodes env [.conditional line isNegated branches otherwise] s)) := by
  obtain ⟨r, hr⟩ := exists_leads_branches env line isNegated branches otherwise s
  have hnode : nodes env [.conditional line isNegated branches otherwise] s = r :=
    nodes_of_leads fun rest => .step (hr rest)
  rw [hnode]
  exact hr rest

/-! ## What a conditional does -/

theorem nodes_conditional_nil :
    nodes env [.conditional line isNegated [] otherwise] s = nodes env otherwise s :=
  nodes_of_leads fun rest => .step (.step (leads_before env otherwise s rest))

theorem nodes_conditional_of_ok (h : condition.eval (s.setting env (some line)) = .ok holds) :
    nodes env [.conditional line isNegated ((condition, body) :: more) otherwise] s =
      if holds != isNegated then nodes env body s
      else nodes env [.conditional line false more otherwise] s := by
  refine nodes_of_leads fun rest => .step (.step ?_)
  show Leads env (next env ⟨.branches line isNegated _ otherwise :: rest, s, none⟩) _
  rw [next_branches_of_ok h]
  split
  · exact leads_before env body s rest
  · exact leads_branches env line false more otherwise s rest

theorem nodes_conditional_of_error
    (h : condition.eval (s.setting env (some line)) = .error e) :
    nodes env [.conditional line isNegated ((condition, body) :: more) otherwise] s =
      .error e s := by
  refine nodes_of_leads fun rest => .step (.step ?_)
  show Leads env (next env ⟨.branches line isNegated _ otherwise :: rest, s, none⟩) _
  rw [next_branches_of_error h]
  exact .refl

theorem nodes_twoWay_of_ok (h : condition.eval (s.setting env (some line)) = .ok holds) :
    nodes env [twoWay line condition body otherwise] s =
      if holds then nodes env body s else nodes env otherwise s := by
  rw [twoWay, nodes_conditional_of_ok h, nodes_conditional_nil, Bool.bne_false]

theorem nodes_remaining :
    nodes env (remaining line branches otherwise) s =
      nodes env [.conditional line false branches otherwise] s := by
  unfold remaining
  cases branches with
  | nil => exact nodes_conditional_nil.symm
  | cons branch more => rfl

/-! ## The conditions that are asked -/

theorem not_asks_of_task {task : Task} {tasks : List Task} {error : Option Error}
    (h : ∀ line isNegated otherwise, task ≠ .branches line isNegated branches otherwise) :
    ¬ Asks branches rest ⟨task :: tasks, s, error⟩ := by
  rintro ⟨-, line, isNegated, otherwise, htasks⟩
  cases htasks
  exact h line isNegated otherwise rfl

theorem not_asks_of_length (h : more.length ≠ branches.length) :
    ¬ Asks branches rest ⟨.branches line isNegated more otherwise :: rest, s, none⟩ := by
  apply not_asks_of_task
  rintro line isNegated otherwise ⟨⟩
  exact h rfl

theorem Inside.not_asks {m : Moment} (h : Inside body m) : ¬ Asks branches rest (m.above rest) := by
  rintro ⟨-, line, isNegated, otherwise, htasks⟩
  obtain hnone | ⟨inner, ns, hm, -⟩ := h
  · have hlength := congrArg List.length htasks
    simp [above, hnone] at hlength
  · simp only [above, hm, List.append_assoc, List.singleton_append] at htasks
    have hlength := congrArg List.length htasks
    simp only [List.length_append, List.length_cons] at hlength
    obtain rfl : inner = [] := List.length_eq_zero_iff.mp (by omega)
    cases htasks

theorem passes_nodes (branches : List (Chain × List Node)) (ns : List Node) (s : Session)
    (rest : List Task) :
    Passes env (Asks branches rest) ⟨.nodes ns :: rest, s, none⟩ []
      (ended rest (nodes env ns s)) := by
  -- They are what is left of a body that has one node more.
  have hinside : Inside (.text 0 "" :: ns) (first ns s) :=
    .inr ⟨[], ns, rfl, Nat.lt_succ_self _⟩
  have hnone : ∀ m, Inside (.text 0 "" :: ns) m → ¬ Asks branches rest (m.above rest) :=
    fun _ => Inside.not_asks
  have hpasses := hinside.passes hnone (leads_nodes env ns s) (isLast_ended _)
  rwa [above_ended] at hpasses

theorem passes_later (hlength : more.length < branches.length) (line : Nat) (isNegated : Bool)
    (otherwise : List Node) (s : Session) (rest : List Task) :
    Passes env (Asks branches rest) ⟨.branches line isNegated more otherwise :: rest, s, none⟩ []
      (ended rest (nodes env [.conditional line isNegated more otherwise] s)) := by
  induction more generalizing isNegated with
  | nil =>
    rw [nodes_conditional_nil]
    refine .other (not_asks_of_length (Nat.ne_of_lt hlength)) ?_
    exact passes_nodes branches otherwise s rest
  | cons branch more ih =>
    obtain ⟨condition, body⟩ := branch
    refine .other (not_asks_of_length (Nat.ne_of_lt hlength)) ?_
    cases h : condition.eval (s.setting env (some (line : Int))) with
    | error e =>
      rw [next_branches_of_error h, nodes_conditional_of_error h]
      exact .here _
    | ok holds =>
      rw [next_branches_of_ok h, nodes_conditional_of_ok h]
      split
      · exact passes_nodes branches body s rest
      · exact ih (Nat.lt_of_succ_lt hlength) false

/--
A condition is asked once, in the session in which the conditional began, if all branches before it
are passed over; else it is not asked.
-/
theorem passes_branches (line : Nat) (isNegated : Bool) (before : List (Chain × List Node))
    (branch : Chain × List Node) (after : List (Chain × List Node)) (otherwise : List Node)
    (s : Session) (rest : List Task) :
    Passes env (Asks (branch :: after) rest)
      ⟨.branches line isNegated (before ++ branch :: after) otherwise :: rest, s, none⟩
      (if arePassedOver (s.setting env (some line)) isNegated before then [s] else [])
      (ended rest
        (nodes env [.conditional line isNegated (before ++ branch :: after) otherwise] s)) := by
  induction before generalizing isNegated with
  | nil =>
    obtain ⟨condition, body⟩ := branch
    rw [arePassedOver, if_pos rfl]
    refine .counts ⟨rfl, line, isNegated, otherwise, rfl⟩ ?_
    rw [List.nil_append]
    cases h : condition.eval (s.setting env (some (line : Int))) with
    | error e =>
      rw [next_branches_of_error h, nodes_conditional_of_error h]
      exact .here _
    | ok holds =>
      rw [next_branches_of_ok h, nodes_conditional_of_ok h]
      split
      · exact passes_nodes _ body s rest
      · exact passes_later (Nat.lt_succ_self _) line false otherwise s rest
  | cons first before ih =>
    obtain ⟨condition, body⟩ := first
    have hlength : (((condition, body) :: before) ++ branch :: after).length ≠
        (branch :: after).length := by
      simp only [List.length_append, List.length_cons]
      omega
    refine .other (not_asks_of_length hlength) ?_
    rw [List.cons_append]
    cases h : condition.eval (s.setting env (some (line : Int))) with
    | error e =>
      have hover : arePassedOver (s.setting env (some line)) isNegated
          ((condition, body) :: before) = false := by
        rw [arePassedOver, isPassedOver, h, Bool.false_and]
      rw [next_branches_of_error h, nodes_conditional_of_error h, hover]
      exact .here _
    | ok holds =>
      have hover : arePassedOver (s.setting env (some line)) isNegated
          ((condition, body) :: before) = (holds == isNegated &&
            arePassedOver (s.setting env (some line)) false before) := by
        rw [arePassedOver, isPassedOver, h]
      rw [next_branches_of_ok h, nodes_conditional_of_ok h, hover]
      by_cases hholds : holds = isNegated
      · subst hholds
        simp only [bne_self_eq_false, beq_self_eq_true, Bool.true_and, Bool.false_eq_true,
          if_false]
        exact ih false
      · have hdiffers : (holds != isNegated) = true := bne_iff_ne.mpr hholds
        simp only [hdiffers, beq_false_of_ne hholds, Bool.false_and, Bool.false_eq_true, if_true,
          if_false]
        exact passes_nodes _ body s rest

/-! ## Conditionals in one another -/

theorem apartFromLine_refl (r : EStateM.Result Error Session Unit) :
    apartFromLine.Ends Eq r r := by
  cases r with
  | ok a s => exact .ok rfl rfl
  | error e s => exact .error rfl rfl

theorem agree_line (env : Environment) (condition : Chain) (line line' : Nat) (s : Session) :
    (∃ holds, condition.eval (s.setting env (some line)) = .ok holds ∧
      condition.eval (s.setting env (some line')) = .ok holds) ∨
    ∃ e e', condition.eval (s.setting env (some line)) = .error e ∧
      condition.eval (s.setting env (some line')) = .error e' ∧ apartFromLine.errors e e' := by
  have hagree : apartFromLine.Agree Eq (condition.eval (s.setting env (some line)))
      (condition.eval (s.setting env (some line'))) := condition.eval_line _
  generalize condition.eval (s.setting env (some (line : Int))) = x at hagree ⊢
  generalize condition.eval (s.setting env (some (line' : Int))) = y at hagree ⊢
  rcases hagree with ⟨⟨⟩⟩ | herror
  · exact .inl ⟨_, rfl, rfl⟩
  · exact .inr ⟨_, _, rfl, rfl, herror⟩

theorem ends_line (line line' : Nat) (isNegated : Bool) (branches : List (Chain × List Node))
    (otherwise : List Node) (s : Session) :
    apartFromLine.Ends Eq (nodes env [.conditional line isNegated branches otherwise] s)
      (nodes env [.conditional line' isNegated branches otherwise] s) := by
  induction branches generalizing isNegated with
  | nil =>
    rw [nodes_conditional_nil, nodes_conditional_nil]
    exact apartFromLine_refl _
  | cons branch more ih =>
    obtain ⟨condition, body⟩ := branch
    obtain ⟨holds, h, h'⟩ | ⟨e, e', h, h', herror⟩ := agree_line env condition line line' s
    · rw [nodes_conditional_of_ok h, nodes_conditional_of_ok h']
      split
      · exact apartFromLine_refl _
      · exact ih false
    · rw [nodes_conditional_of_error h, nodes_conditional_of_error h']
      exact .error herror rfl

theorem ends_nested (line : Nat) (placed : List (Nat × Chain × List Node))
    (otherwise : List Node) (s : Session) :
    apartFromLine.Ends Eq
      (nodes env [.conditional line false (placed.map Prod.snd) otherwise] s)
      (nodes env (nested placed otherwise) s) := by
  induction placed with
  | nil =>
    rw [List.map_nil, nodes_conditional_nil]
    exact apartFromLine_refl _
  | cons first rest ih =>
    obtain ⟨line', condition, body⟩ := first
    rw [List.map_cons, nested]
    obtain ⟨holds, h, h'⟩ | ⟨e, e', h, h', herror⟩ := agree_line env condition line line' s
    · rw [nodes_conditional_of_ok h, nodes_twoWay_of_ok h', Bool.bne_false]
      split
      · exact apartFromLine_refl _
      · exact ih
    · rw [nodes_conditional_of_error h, twoWay, nodes_conditional_of_error h']
      exact .error herror rfl

theorem ends_negated (line line₁ line₂ : Nat) (condition : Chain) (body : List Node)
    (more : List (Chain × List Node)) (otherwise : List Node) (s : Session) :
    apartFromLine.Ends Eq
      (nodes env [.conditional line true ((condition, body) :: more) otherwise] s)
      (nodes env [twoWay line₁ condition (remaining line₂ more otherwise) body] s) := by
  obtain ⟨holds, h, h'⟩ | ⟨e, e', h, h', herror⟩ := agree_line env condition line line₁ s
  · rw [nodes_conditional_of_ok h, nodes_twoWay_of_ok h', nodes_remaining, Bool.bne_true]
    cases holds with
    | false => exact apartFromLine_refl _
    | true => exact ends_line line line₂ false more otherwise s
  · rw [nodes_conditional_of_error h, twoWay, nodes_conditional_of_error h']
    exact .error herror rfl

end

/--
A conditional asks a condition once, in the session in which it began, if it passes over all
branches before it, and not at all if it does not. It ends as two-way conditionals end, each of
which is all there is in the `else` part of the one before: in the same session, and with the same
error, but for its line. Where its first condition is negated, it ends as the two-way conditional on
that condition does that has the rest of the branches in the place of its body and the first branch
as its `else` part.
-/
theorem conditionals_nest (env : Environment) (line : Nat) (otherwise : List Node) (s : Session)
    (rest : List Task) :
    (∀ isNegated before branch after,
      let conditional := Node.conditional line isNegated (before ++ branch :: after) otherwise
      Passes env (Asks (branch :: after) rest) ⟨.node conditional :: rest, s, none⟩
        (if arePassedOver (s.setting env (some line)) isNegated before then [s] else [])
        (ended rest (nodes env [conditional] s))) ∧
    (∀ placed : List (Nat × Chain × List Node),
      apartFromLine.Ends Eq
        (nodes env [.conditional line false (placed.map Prod.snd) otherwise] s)
        (nodes env (nested placed otherwise) s)) ∧
    ∀ line₁ line₂ condition body more,
      apartFromLine.Ends Eq
        (nodes env [.conditional line true ((condition, body) :: more) otherwise] s)
        (nodes env [twoWay line₁ condition (remaining line₂ more otherwise) body] s) := by
  refine ⟨?_, ?_, ?_⟩
  · intro isNegated before branch after conditional
    refine .other (not_asks_of_task nofun) ?_
    exact passes_branches line isNegated before branch after otherwise s rest
  · intro placed
    exact ends_nested line placed otherwise s
  · intro line₁ line₂ condition body more
    exact ends_negated line line₁ line₂ condition body more otherwise s

end Stencil.Render
