import Stencil.Proofs.Template.Steps

/-!
# What the grammar derives is read

A reader that comes to a phrase reads all of its tokens, and has the nodes of the phrase then.
-/

namespace Stencil

open Markup Reader

/-- What a reader makes of a phrase. -/
def ReadAs (o : Origin) : Phrase → List Token → Prop
  | .body trims nodes trimsNext, ts => ∀ opened, ReadsMarkup opened →
    readAll TagTable.default o ⟨[], opened, trims⟩ ts =
      .ok ⟨nodes.reverse, opened, trimsNext⟩
  | .node n trimsNext, ts => ∀ t us, ts = t :: us →
    ∀ nodes opened trims, ReadsMarkup opened →
    readAll TagTable.default o ⟨nodes.reverse, opened, trims⟩ (t :: us) =
      .ok ⟨n :: (t.trimBefore nodes).reverse, opened, trimsNext⟩
  | .ended trims nodes name markup trimsNext, ts =>
    ∀ inner outer ending, inner.block.isLiteral = false →
    inner.block.Ends inner.line nodes name markup ending →
    readAll TagTable.default o ⟨[], inner :: outer, trims⟩ ts =
      .ok (afterBody inner outer trimsNext ending)
  | .branches isNegated condition trims chain otherwise trimsNext, ts =>
    ∀ name line earlier before outer,
    readAll TagTable.default o
      ⟨[], ⟨name, line, .branches isNegated earlier condition, before⟩ :: outer, trims⟩ ts =
      .ok ⟨.conditional line isNegated (earlier ++ chain) otherwise :: before, outer, trimsNext⟩
  | .loopBodies trims body otherwise trimsNext, ts =>
    ∀ name line loop head before outer, loop.parse = .ok head →
    readAll TagTable.default o ⟨[], ⟨name, line, .loop loop, before⟩ :: outer, trims⟩ ts =
      .ok ⟨.loop line head body otherwise :: before, outer, trimsNext⟩

theorem readAs_of_derives (o : Origin) {p : Phrase} {ts : List Token} (h : Derives p ts) :
    ReadAs o p ts := by
  induction h with
  | nil => exact fun opened _ => rfl
  | text _ hkind ih =>
    intro opened hopened
    rw [readAll_append_of_ok (ih opened hopened), readAll_singleton, read_of_readsMarkup hopened]
    unfold readMarkup
    simp only [hkind]
    rw [addText_eq]
  | snoc _ _ ih ihnode =>
    intro opened hopened
    rw [readAll_append_of_ok (ih opened hopened), ihnode _ _ rfl _ _ _ hopened,
      List.reverse_append]
    rfl
  | output hkind he =>
    rintro _ _ ⟨⟩ nodes opened trims hopened
    rw [readAll_singleton, read_of_readsMarkup hopened]
    unfold readMarkup
    simp only [hkind, he, trimAround_eq]
    rfl
  | assign htag hmarkup =>
    rintro _ _ ⟨⟩ nodes opened trims hopened
    rw [readAll_singleton, read_of_isTag hopened htag]
    exact readTag_of_starts (.assign hmarkup)
  | inclusion htag hmarkup =>
    rintro _ _ ⟨⟩ nodes opened trims hopened
    rw [readAll_singleton, read_of_isTag hopened htag]
    exact readTag_of_starts (.inclusion hmarkup)
  | @literal isComment t u us leading htag hbody hclosing =>
    rintro _ _ ⟨⟩ nodes opened trims hopened
    have hscan : Literal.scan? (literalStart isComment) (us ++ [u]) =
        some (Literal.text us ++ leading, []) := by
      rw [Literal.scan?_append hbody, Literal.scan?_of_closing hclosing]
      rfl
    rw [readAll, read_of_isTag hopened htag, readTag_of_starts .literal]
    refine (readAll_literal _ _ _ _ _ _ _ _ _).trans ?_
    rw [hscan]
    rfl
  | conditional htag hcondition _ ih =>
    rintro _ _ ⟨⟩ nodes opened trims hopened
    rw [readAll, read_of_isTag hopened htag, readTag_of_starts (.conditional hcondition)]
    exact ih _ _ _ _ _
  | loop htag hsplit hhead _ ih =>
    rintro _ _ ⟨⟩ nodes opened trims hopened
    rw [readAll, read_of_isTag hopened htag, readTag_of_starts (.loop hsplit)]
    exact ih _ _ _ _ _ _ hhead
  | ifChanged htag _ ih =>
    rintro _ _ ⟨⟩ nodes opened trims hopened
    rw [readAll, read_of_isTag hopened htag, readTag_of_starts .ifChanged]
    exact ih ⟨"ifchanged", _, .ifChanged, _⟩ opened _ rfl .ifChanged
  | ended _ htag ih =>
    intro inner outer ending hinner hend
    have hopened : ReadsMarkup (inner :: outer) := by
      rintro _ ⟨⟩
      exact hinner
    rw [readAll_append_of_ok (ih _ hopened), readAll_singleton, read_of_isTag hopened htag]
    exact readTag_of_ends hend
  | lastBranch _ ih =>
    intro name line earlier before outer
    exact ih ⟨name, line, _, before⟩ outer _ rfl .lastBranch
  | elseBranch _ _ ih ihelse =>
    intro name line earlier before outer
    rw [readAll_append_of_ok (ih ⟨name, line, _, before⟩ outer _ rfl .elseBranch)]
    exact ihelse ⟨name, line, _, before⟩ outer _ rfl .otherwise
  | elsifBranch _ hnext _ ih ihnext =>
    intro name line earlier before outer
    rw [readAll_append_of_ok (ih ⟨name, line, _, before⟩ outer _ rfl (.elsifBranch hnext))]
    refine (ihnext _ _ _ _ _).trans ?_
    rw [List.append_assoc]
    rfl
  | loopBody _ ih =>
    intro name line loop head before outer hhead
    exact ih ⟨name, line, _, before⟩ outer _ rfl (.loop hhead)
  | elseBody _ _ ih ihelse =>
    intro name line loop head before outer hhead
    rw [readAll_append_of_ok (ih ⟨name, line, .loop loop, before⟩ outer _ rfl .loopElse)]
    exact ihelse ⟨name, line, _, before⟩ outer _ rfl (.loopOtherwise hhead)

end Stencil
