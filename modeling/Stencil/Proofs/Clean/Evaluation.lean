import Stencil.Condition.Evaluation
import Stencil.Proofs.Clean.Value

/-!
# Evaluation without escapes

If there is no escape in the values that are bound, and none in an expression, there is none in what
the expression evaluates to, nor in the error that it fails with. The same goes for conditions.
-/

namespace Stencil

/-! ## Errors -/

theorem Error.clean_stated (kind : ErrorKind) {message : String} (h : Text.Clean message) :
    (Error.stated kind message).Clean := by
  have hmessage : ∀ text ∈ [message], Text.Clean text := List.forall_mem_singleton.mpr h
  cases kind with
  | general => exact h
  | notFound => exact hmessage
  | malformed | unterminated => exact ⟨hmessage, Text.clean_none, Text.clean_none⟩
  | undefined => exact ⟨h, Text.clean_none, List.forall_mem_nil _⟩
  | runtime kind =>
    have hchain : ∀ link ∈ ([] : IncludeChain), Text.Clean link.1 := List.forall_mem_nil _
    cases kind with
    | missingName =>
      exact ⟨RuntimeFault.clean_missingName, Text.clean_some h, Text.clean_none, hchain⟩
    | _ => exact ⟨hmessage, Text.clean_none, Text.clean_none, hchain⟩

theorem Error.clean_quoting {e? : Option Error} (h : ∀ e ∈ e?, e.Clean) :
    (Error.quoting e?).Clean := by
  cases e? with
  | none => trivial
  | some e => exact h e rfl

/-! ## Settings -/

structure Setting.Clean (s : Setting) : Prop where
  scope : s.scope.Clean
  host : s.host.Clean
  template : ∀ name ∈ s.template, Text.Clean name

namespace Setting.Clean

variable {s : Setting}

theorem fault (h : s.Clean) {fault : RuntimeFault} (hfault : fault.Clean)
    {expression : Option String} (hexpression : ∀ e ∈ expression, Text.Clean e) :
    (s.fault fault expression).Clean :=
  ⟨hfault, hexpression, h.template, List.forall_mem_nil _⟩

theorem undefined (h : s.Clean) {markup : String} (hmarkup : Text.Clean markup) :
    Yields Error.Clean Value.Clean (s.undefined markup) := by
  unfold Setting.undefined
  split
  · exact ⟨hmarkup, h.template, h.scope.names⟩
  · exact .nil

theorem readError (h : s.Clean) {markup : String} (hmarkup : Text.Clean markup) {v key : Value}
    (hv : v.Clean) (hkey : key.Clean) {f : Value.ReadFault} (hf : f.Clean) :
    (s.readError markup v key f).Clean := by
  unfold Setting.readError
  split
  · exact Error.clean_stated _ hf
  · refine Error.clean_quoting fun e he => ?_
    obtain ⟨text, htext, rfl⟩ := Option.map_eq_some_iff.mp he
    have hquoted : (RuntimeFault.reading text v.typeName f.message).Clean :=
      List.forall_mem_cons.mpr ⟨Value.clean_literal? h.host hkey text htext,
        Text.forall_clean_pair.mpr ⟨hv.typeName, hf⟩⟩
    exact h.fault hquoted (Text.clean_some hmarkup)

theorem read (h : s.Clean) {markup : String} (hmarkup : Text.Clean markup) {v key : Value}
    (hv : v.Clean) (hkey : key.Clean) : Yields Error.Clean Value.Clean (s.read markup v key) := by
  have hread : Yields Value.ReadFault.Clean Value.Clean (v.read s.host key) :=
    Value.yields_read h.host hv hkey
  unfold Setting.read
  split
  · next found hfound => exact hread.of_ok hfound
  · next f hf => exact h.readError hmarkup hv hkey (hread.of_error hf)

theorem boundsError (h : s.Clean) {low high : Value} (hlow : low.Clean) (hhigh : high.Clean) :
    (s.boundsError low high).Clean := by
  refine Error.clean_quoting fun e he => ?_
  obtain ⟨start, hstart, he⟩ := Option.bind_eq_some_iff.mp he
  obtain ⟨stop, hstop, he⟩ := Option.bind_eq_some_iff.mp he
  cases he
  have hquoted : (RuntimeFault.bounds start stop).Clean :=
    Text.forall_clean_pair.mpr ⟨Value.clean_literal? h.host hlow start hstart,
      Value.clean_literal? h.host hhigh stop hstop⟩
  exact h.fault hquoted Text.clean_none

theorem argumentError (h : s.Clean) {v : Value} (hv : v.Clean) : (s.argumentError v).Clean := by
  refine Error.clean_quoting fun e he => ?_
  obtain ⟨text, htext, rfl⟩ := Option.map_eq_some_iff.mp he
  have hquoted : (RuntimeFault.loopArgument text).Clean :=
    List.forall_mem_singleton.mpr (Value.clean_literal? h.host hv text htext)
  exact h.fault hquoted Text.clean_none

theorem whole {unreadable : Error} (hunreadable : unreadable.Clean) (s : Setting) (v : Value) :
    Yields Error.Clean (fun _ => True) (s.whole unreadable v) := by
  unfold Setting.whole
  split
  · trivial
  · exact hunreadable
  · trivial

end Setting.Clean

/-! ## Expressions -/

mutual

inductive Expr.Clean : Expr → Prop
  | literal {v : Value} : v.Clean → Expr.Clean (.literal v)
  | range {start stop : Expr} : Expr.Clean start → Expr.Clean stop →
    Expr.Clean (.range start stop)
  | lookup {root : Key} {path : List Key} {markup : String} : Key.Clean root →
    (∀ key ∈ path, Key.Clean key) → Text.Clean markup → Expr.Clean (.lookup root path markup)

inductive Key.Clean : Key → Prop
  | name {s : String} : Text.Clean s → Key.Clean (.name s)
  | computed {e : Expr} : Expr.Clean e → Key.Clean (.computed e)

end

namespace Expr

variable {s : Setting}

mutual

theorem yields_eval (hs : s.Clean) {e : Expr} (h : e.Clean) :
    Yields Error.Clean Value.Clean (e.eval s) := by
  cases h with
  | literal hv => exact hv
  | range hstart hstop =>
    refine (yields_eval hs hstart).bind fun low hlow => ?_
    refine (yields_eval hs hstop).bind fun high hhigh => ?_
    have hbounds := hs.boundsError hlow hhigh
    refine (Setting.Clean.whole hbounds s low).bind fun first _ => ?_
    exact (Setting.Clean.whole hbounds s high).bind fun last _ => .range _ _
  | lookup hroot hpath hmarkup =>
    refine (yields_evalRoot hs hroot).bind fun start hstart => ?_
    refine (yields_evalPath hs hmarkup hstart hpath).bind fun v hv => ?_
    split
    · exact hs.undefined hmarkup
    · exact hv

theorem yields_evalRoot (hs : s.Clean) {key : Key} (h : key.Clean) :
    Yields Error.Clean Value.Clean (evalRoot s key) := by
  cases h with
  | name _ => exact hs.scope.find _
  | computed h =>
    refine (yields_eval hs h).bind fun v _ => ?_
    split
    · exact hs.scope.find _
    · exact .missing

theorem yields_evalKey (hs : s.Clean) {key : Key} (h : key.Clean) :
    Yields Error.Clean Value.Clean (evalKey s key) := by
  cases h with
  | name h => exact .text h
  | computed h => exact yields_eval hs h

theorem yields_evalPath (hs : s.Clean) {markup : String} (hmarkup : Text.Clean markup) {v : Value}
    (hv : v.Clean) {path : List Key} (h : ∀ key ∈ path, key.Clean) :
    Yields Error.Clean Value.Clean (evalPath s markup v path) := by
  cases path with
  | nil => exact hv
  | cons key rest =>
    obtain ⟨hkey, hrest⟩ := List.forall_mem_cons.mp h
    unfold evalPath
    split
    · exact .missing
    · refine (yields_evalKey hs hkey).bind fun k hk => ?_
      exact (hs.read hmarkup hv hk).bind fun next hnext => yields_evalPath hs hmarkup hnext hrest

end

end Expr

/-! ## Conditions -/

structure Condition.Clean (c : Condition) : Prop where
  left : c.left.Clean
  right : ∀ test ∈ c.test, test.2.Clean

structure Chain.Clean (c : Chain) : Prop where
  first : c.first.Clean
  rest : ∀ link ∈ c.rest, link.2.Clean

section

variable {s : Setting}

theorem Setting.Clean.comparisonError (hs : s.Clean) (op : Operator) {v w : Value} (hv : v.Clean)
    (hw : w.Clean) : (s.comparisonError op v w).Clean := by
  refine Error.clean_quoting fun e he => ?_
  obtain ⟨left, hleft, he⟩ := Option.bind_eq_some_iff.mp he
  obtain ⟨right, hright, he⟩ := Option.bind_eq_some_iff.mp he
  cases he
  have hop : Text.Clean op.text := by
    cases op with
    | compares c => cases c <;> decide
    | _ => decide
  have htypes : (RuntimeFault.comparison v.typeName w.typeName).Clean :=
    Text.forall_clean_pair.mpr ⟨hv.typeName, hw.typeName⟩
  have hleft := Value.clean_literal? hs.host hv left hleft
  have hright := Value.clean_literal? hs.host hw right hright
  refine hs.fault htypes (Text.clean_some ?_)
  simp only [Text.clean_append, hleft, hop, hright, and_true]
  decide

theorem Condition.yields_eval (hs : s.Clean) {c : Condition} (h : c.Clean) :
    Yields Error.Clean (fun _ => True) (c.eval s) := by
  refine (Expr.yields_eval hs h.left).bind fun v hv => ?_
  split
  · trivial
  · next op e htest =>
    refine (Expr.yields_eval hs (h.right _ htest)).bind fun w hw => ?_
    split
    · trivial
    · exact hs.comparisonError op hv hw

theorem yields_evalChain (hs : s.Clean) {first : Condition} (hfirst : first.Clean)
    {rest : List (Connector × Condition)} (hrest : ∀ link ∈ rest, link.2.Clean) :
    Yields Error.Clean (fun _ => True) (evalChain s first rest) := by
  induction rest generalizing first with
  | nil => exact Condition.yields_eval hs hfirst
  | cons link rest ih =>
    obtain ⟨hnext, hrest⟩ := List.forall_mem_cons.mp hrest
    refine (ih hnext hrest).bind fun later _ => ?_
    exact (Condition.yields_eval hs hfirst).bind fun holds _ => trivial

theorem Chain.yields_eval (hs : s.Clean) {c : Chain} (h : c.Clean) :
    Yields Error.Clean (fun _ => True) (c.eval s) := yields_evalChain hs h.first h.rest

end

end Stencil
