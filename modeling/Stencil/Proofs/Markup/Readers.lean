import Stencil.Proofs.Expr.Readers
import Stencil.Proofs.Markup.Parts

/-!
# What the readers of markups return

A markup is cut into parts, an expression is read from each of them that is none of its names, and a
fault quotes parts of the markup. So what holds of a markup and of its parts holds of the names in
what is read, together with what then holds of the expressions or of the reason why there are none.
-/

namespace Stencil

open Markup

/--
What holds of texts, of reasons and of expressions, such that a reader that is given such a text
comes to such expressions or to such a reason.
-/
structure Markup.Keeps (T : List Char → Prop) (E : Failure SyntaxFault → Prop)
    (P : Expr → Prop) : Prop where
  part {cs part : List Char} : T cs → part <:+: cs → T part
  expression {cs : List Char} : T cs → Yields E P (Expr.parse cs)
  assign {cs : List Char} : T cs → E (.malformed (.assign (String.ofList cs)))
  noCondition : E (.malformed .noCondition)
  condition {clause : List (List Char)} {cs : List Char} : (∀ word ∈ clause, T word) → T cs →
    E (.malformed (.condition (" ".intercalate (clause.map String.ofList)) (String.ofList cs)))

namespace Markup.Keeps

variable {T : List Char → Prop} {E : Failure SyntaxFault → Prop} {P : Expr → Prop}
  {cs : List Char}

/-! ## Directives -/

theorem yields_parseOptional (h : Keeps T E P) {part? : Option (List Char)}
    (hpart : ∀ part ∈ part?, T part) :
    Yields E (fun found : Option Expr => ∀ e ∈ found, P e) (parseOptional part?) := by
  cases part? with
  | none => exact nofun
  | some part =>
    refine (h.expression (hpart part rfl)).map fun e he => ?_
    rintro _ ⟨⟩
    exact he

theorem yields_assignment (h : Keeps T E P) (hcs : T cs) :
    Yields E (fun a : Assignment => T a.target.toList ∧ P a.source) (Assignment.parse cs) := by
  unfold Assignment.parse
  split
  · exact h.assign hcs
  · next target source hsplit =>
    obtain ⟨htarget, hsource⟩ := parts_of_splitAssign? hsplit
    refine (h.expression (h.part hcs hsource)).bind fun e he => ⟨?_, he⟩
    rw [String.toList_ofList]
    exact h.part hcs htarget

theorem yields_loop (h : Keeps T E P) {m : LoopMarkup} (hm : m.IsIn cs) (hcs : T cs) :
    Yields E (fun head : LoopHead => T head.item.toList ∧ P head.collection ∧
      (∀ e ∈ head.limit, P e) ∧ ∀ e ∈ head.offset, P e) m.parse := by
  have hlimit : ∀ part ∈ m.limit, T part := fun part hpart => h.part hcs (hm.limit part hpart)
  have hoffset : ∀ part ∈ m.offset, T part := fun part hpart => h.part hcs (hm.offset part hpart)
  refine (h.expression (h.part hcs hm.collection)).bind fun collection hcollection => ?_
  refine (h.yields_parseOptional hlimit).bind fun limit hlimit => ?_
  refine (h.yields_parseOptional hoffset).bind fun offset hoffset => ?_
  exact ⟨h.part hcs hm.item, hcollection, hlimit, hoffset⟩

/-! ## Inclusions -/

theorem yields_attributes (h : Keeps T E P) (hcs : T cs) :
    Yields E (fun found : List (String × Expr) => ∀ a ∈ found, T a.1.toList ∧ P a.2)
      ((Markup.attributes cs).mapM fun (key, value) => do
        let e ← Expr.parse value
        return (String.ofList key, e)) := by
  refine Yields.mapM ?_
  rintro ⟨key, value⟩ hpair
  obtain ⟨hkey, hvalue⟩ := parts_of_mem_attributes hpair
  refine (h.expression (h.part hcs hvalue)).bind fun e he => ⟨?_, he⟩
  rw [String.toList_ofList]
  exact h.part hcs hkey

theorem yields_inclusion (h : Keeps T E P) {tag : String} (hcs : T cs)
    (hinvalid : E (.malformed (.inclusion tag (String.ofList cs)))) :
    Yields E (fun i : Inclusion => P i.template ∧ (∀ e ∈ i.bound, P e) ∧
      (∀ a ∈ i.attributes, T a.1.toList ∧ P a.2) ∧ i.markup = String.ofList cs)
      (Inclusion.parse tag cs) := by
  unfold Inclusion.parse
  split
  · exact hinvalid
  · next name rest hfragment =>
    have hcut := append_of_fragment? hfragment
    have hname : T name := h.part hcs ⟨[], rest, hcut⟩
    have hrest : T rest := h.part hcs ⟨name, [], by rw [List.append_nil, hcut]⟩
    dsimp only
    cases hbound : boundFragment? rest with
    | none =>
      refine (h.yields_attributes hrest).bind fun found hfound => ?_
      refine (h.expression hname).bind fun template htemplate => ?_
      exact ⟨htemplate, nofun, hfound, rfl⟩
    | some bound =>
      obtain ⟨hpart, hmore⟩ := parts_of_boundFragment? hbound
      refine (h.yields_attributes (h.part hrest hmore.isInfix)).bind fun found hfound => ?_
      refine (h.expression hname).bind fun template htemplate => ?_
      refine Yields.bind (h.yields_parseOptional ?_) fun bound hbound => ?_
      · rintro _ ⟨⟩
        exact h.part hrest hpart
      · exact ⟨htemplate, hbound, hfound, rfl⟩

/-! ## Chains -/

theorem yields_ofWords (h : Keeps T E P) (hcs : T cs) {clause : List (List Char)}
    (hclause : ∀ word ∈ clause, T word) :
    Yields E (fun c : Condition => P c.left ∧ ∀ test ∈ c.test, P test.2)
      (Condition.ofWords cs clause) := by
  unfold Condition.ofWords
  dsimp only
  split
  · next value =>
    exact (h.expression (hclause value List.mem_cons_self)).bind fun e he => ⟨he, nofun⟩
  · next left operator right =>
    split
    · exact h.condition hclause hcs
    · refine (h.expression (hclause left List.mem_cons_self)).bind fun l hl => ?_
      refine (h.expression (hclause right (by simp))).bind fun r hr => ⟨hl, ?_⟩
      rintro _ ⟨⟩
      exact hr
  · exact h.condition hclause hcs

theorem yields_readClauses (h : Keeps T E P) (hcs : T cs) {words : List (List Char)}
    (hwords : ∀ word ∈ words, T word) :
    Yields E (fun found : Condition × List (Connector × Condition) =>
        ∀ c ∈ found.1 :: found.2.map (·.2), P c.left ∧ ∀ test ∈ c.test, P test.2)
      (readClauses cs words) := by
  fun_induction readClauses cs words with
  | case1 words clause hsplit =>
    obtain ⟨hclause, -⟩ := mem_of_splitClause hsplit
    exact (h.yields_ofWords hcs fun word hword => hwords word (hclause hword)).bind
      fun first hfirst => List.forall_mem_singleton.mpr hfirst
  | case2 words clause connector more hsplit ih =>
    obtain ⟨hclause, hmore⟩ := mem_of_splitClause hsplit
    refine (h.yields_ofWords hcs fun word hword => hwords word (hclause hword)).bind
      fun first hfirst => ?_
    refine (ih fun word hword => hwords word (hmore _ rfl hword)).bind fun rest hrest => ?_
    exact List.forall_mem_cons.mpr ⟨hfirst, hrest⟩

theorem yields_chain (h : Keeps T E P) (hcs : T cs) :
    Yields E (fun chain : Chain => ∀ c ∈ chain.conditions, P c.left ∧ ∀ test ∈ c.test, P test.2)
      (Chain.parse cs) := by
  unfold Chain.parse
  split
  · exact h.noCondition
  · have hwords : ∀ word ∈ words cs, T word := fun word hword =>
      h.part hcs (isInfix_of_mem_words hword)
    exact (h.yields_readClauses hcs hwords).bind fun found hfound => hfound

end Markup.Keeps

end Stencil
