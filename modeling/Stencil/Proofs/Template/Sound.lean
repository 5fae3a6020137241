import Stencil.Proofs.Template.Complete

/-!
# What is read, the grammar derives

At every moment the tokens that a reader has read are those of a body that it is in, with the first
tokens of every block around that body.
-/

namespace Stencil

open Markup

/-! ## Open blocks -/

/--
What the tokens of a block so far need to be a node: the phrase that comes next. Text at its start
is trimmed where `trims` says so.
-/
def OpenBlock.Awaits (b : OpenBlock) (trims : Bool) (ts : List Token) : Prop :=
  match b.block with
  | .branches isNegated earlier condition => ∀ us branches otherwise trims',
    Derives (.branches isNegated condition trims branches otherwise trims') us →
    Derives (.node (.conditional b.line isNegated (earlier ++ branches) otherwise) trims')
      (ts ++ us)
  | .otherwise isNegated conditions => ∀ us body markup trims',
    Derives (.ended trims body (conditionalEnd isNegated) markup trims') us →
    Derives (.node (.conditional b.line isNegated conditions body) trims') (ts ++ us)
  | .loop loop => ∀ us head body otherwise trims', loop.parse = .ok head →
    Derives (.loopBodies trims body otherwise trims') us →
    Derives (.node (.loop b.line head body otherwise) trims') (ts ++ us)
  | .loopOtherwise loop body => ∀ us head otherwise markup trims', loop.parse = .ok head →
    Derives (.ended trims otherwise "endfor" markup trims') us →
    Derives (.node (.loop b.line head body otherwise) trims') (ts ++ us)
  | .ifChanged => ∀ us body markup trims',
    Derives (.ended trims body "endifchanged" markup trims') us →
    Derives (.node (.ifChanged b.line body) trims') (ts ++ us)
  | .literal isComment body => ∀ us u leading,
    (∀ v ∈ us, Literal.closing? b.name v.value.toList = none) →
    Literal.closing? b.name u.value.toList = some leading →
    Derives (.node (.literal isComment b.line b.name (body ++ Literal.text us ++ leading)) false)
      (ts ++ us ++ [u])

/-- What has become of a block with these tokens where a body of it ended. -/
def OpenBlock.GoesOn (b : OpenBlock) (trims : Bool) (ts : List Token) : BodyEnd → Prop
  | .closed node => Derives (.node node trims) ts
  | .continued block => block.isLiteral = false ∧ OpenBlock.Awaits { b with block } trims ts

theorem OpenBlock.Awaits.ended {b : OpenBlock} {trims trims' : Bool} {ts us : List Token}
    {body : List Node} {name : String} {markup : List Char} {ending : BodyEnd}
    (h : b.Awaits trims ts) (hbody : Derives (.ended trims body name markup trims') us)
    (hends : b.block.Ends b.line body name markup ending) : b.GoesOn trims' (ts ++ us) ending := by
  obtain ⟨blockName, line, block, before⟩ := b
  cases hends with
  | lastBranch => exact h _ _ _ _ (.lastBranch hbody)
  | elseBranch =>
    refine ⟨rfl, fun vs otherwise markup' trims'' hrest => ?_⟩
    rw [List.append_assoc]
    exact h _ _ _ _ (.elseBranch hbody hrest)
  | elsifBranch hnext =>
    refine ⟨rfl, fun vs branches otherwise trims'' hrest => ?_⟩
    rw [List.append_assoc, List.append_assoc]
    exact h _ _ _ _ (.elsifBranch hbody hnext hrest)
  | otherwise => exact h _ _ _ _ hbody
  | loop hhead => exact h _ _ _ _ _ hhead (.loopBody hbody)
  | loopElse =>
    refine ⟨rfl, fun vs head otherwise markup' trims'' hhead hrest => ?_⟩
    rw [List.append_assoc]
    exact h _ _ _ _ _ hhead (.elseBody hbody hrest)
  | loopOtherwise hhead => exact h _ _ _ _ _ hhead hbody
  | ifChanged => exact h _ _ _ _ hbody

theorem TagStart.Starts.awaits {t : Token} {name : String} {markup : List Char} {block : Block}
    (h : Starts t.line name markup (.block block)) (htag : t.IsTag name markup)
    (before : List Node) : OpenBlock.Awaits ⟨name, t.line, block, before⟩ t.trimsRight [t] := by
  cases h with
  | conditional hcondition => exact fun us branches otherwise trims' => .conditional htag hcondition
  | loop hsplit => exact fun us head body otherwise trims' hhead => .loop htag hsplit hhead
  | ifChanged => exact fun us body markup' trims' => .ifChanged htag
  | literal => exact fun us u leading => .literal htag

theorem TagStart.Starts.derives {t : Token} {name : String} {markup : List Char} {node : Node}
    (h : Starts t.line name markup (.node node)) (htag : t.IsTag name markup) :
    Derives (.node node t.trimsRight) [t] := by
  cases h with
  | assign hmarkup => exact .assign htag hmarkup
  | inclusion hmarkup => exact .inclusion htag hmarkup

/-! ## Readers -/

namespace Reader

/-- The tokens in front of the innermost body, and whether text at its start is trimmed. -/
inductive Context : List OpenBlock → Bool → List Token → Prop
  | top : Context [] false []
  | inside {inner : OpenBlock} {outer : List OpenBlock} {trims trims' trims'' : Bool}
    {nodes : List Node} {t : Token} {ts us vs : List Token} :
    Context outer trims ts → ReadsMarkup outer → Derives (.body trims nodes trims') us →
    inner.before = (t.trimBefore nodes).reverse → inner.Awaits trims'' (t :: vs) →
    Context (inner :: outer) trims'' (ts ++ us ++ t :: vs)

/-- The tokens that a reader has read. -/
inductive Reads : Reader → List Token → Prop
  | markup {opened : List OpenBlock} {trims trims' : Bool} {nodes : List Node}
    {ts us : List Token} :
    Context opened trims ts → ReadsMarkup opened → Derives (.body trims nodes trims') us →
    Reads ⟨nodes.reverse, opened, trims'⟩ (ts ++ us)
  | literal {inner : OpenBlock} {outer : List OpenBlock} {trims trims' : Bool}
    {nodes : List Node} {ts : List Token} :
    Context (inner :: outer) trims ts → inner.block.isLiteral →
    Reads ⟨nodes, inner :: outer, trims'⟩ ts

section

variable {o : Origin} {opened outer : List OpenBlock} {inner : OpenBlock}
  {trims trims' trims'' : Bool} {nodes : List Node} {node : Node} {t : Token}
  {ts us vs : List Token}

theorem Reads.snoc (hcontext : Context opened trims ts) (hopened : ReadsMarkup opened)
    (hbody : Derives (.body trims nodes trims') us)
    (hnode : Derives (.node node trims'') (t :: vs)) :
    Reads ⟨node :: (t.trimBefore nodes).reverse, opened, trims''⟩ (ts ++ us ++ t :: vs) := by
  have h := Reads.markup hcontext hopened (.snoc hbody hnode)
  rwa [List.reverse_append, ← List.append_assoc] at h

theorem Reads.afterBody {body : List Node} {name : String} {markup : List Char} {ending : BodyEnd}
    (hcontext : Context (inner :: outer) trims ts)
    (hbody : Derives (.ended trims body name markup trims') us)
    (hends : inner.block.Ends inner.line body name markup ending) :
    Reads (Reader.afterBody inner outer trims' ending) (ts ++ us) := by
  cases hcontext with
  | inside houter hmarkup hnodes hbefore hawaits =>
    have hgoes := hawaits.ended hbody hends
    rw [List.append_assoc]
    cases ending with
    | closed node =>
      have h := Reads.snoc houter hmarkup hnodes hgoes
      rwa [← hbefore] at h
    | continued block =>
      have hcontext : Context ({ inner with block } :: outer) trims' _ :=
        .inside houter hmarkup hnodes hbefore hgoes.2
      have hopened : ReadsMarkup ({ inner with block } :: outer) := by
        rintro _ ⟨⟩
        exact hgoes.1
      have h := Reads.markup hcontext hopened .nil
      rwa [List.append_nil] at h

theorem Reads.afterStart {name : String} {markup : List Char} {start : TagStart}
    (hcontext : Context opened trims ts) (hopened : ReadsMarkup opened)
    (hbody : Derives (.body trims nodes trims') us) (htag : t.IsTag name markup)
    (hstarts : TagStart.Starts t.line name markup start) :
    Reads (Reader.afterStart name t.line (t.trimBefore nodes) opened t.trimsRight start)
      (ts ++ us ++ [t]) := by
  cases start with
  | node node => exact Reads.snoc hcontext hopened hbody (hstarts.derives htag)
  | block block =>
    have hinside : Context (⟨name, t.line, block, (t.trimBefore nodes).reverse⟩ :: opened)
        t.trimsRight (ts ++ us ++ [t]) :=
      .inside hcontext hopened hbody rfl (hstarts.awaits htag _)
    cases hliteral : block.isLiteral with
    | true => exact .literal hinside hliteral
    | false =>
      have h := Reads.markup hinside (by rintro _ ⟨⟩; exact hliteral) .nil
      rwa [List.append_nil] at h

theorem Context.readLiteral {isComment : Bool} {body : List Char}
    (hcontext : Context (inner :: outer) trims ts) (hblock : inner.block = .literal isComment body)
    (t : Token) :
    Reads (Reader.readLiteral ⟨nodes, inner :: outer, trims'⟩ inner outer isComment body
      t.value.toList) (ts ++ [t]) := by
  obtain ⟨name, line, block, before⟩ := inner
  cases hblock
  cases hcontext with
  | @inside _ _ _ _ _ _ first ts us vs houter hmarkup hnodes hbefore hawaits =>
    rw [List.append_assoc]
    unfold Reader.readLiteral
    cases hclosing : Literal.closing? name t.value.toList with
    | some leading =>
      have hnode : Derives (.node (.literal isComment line name (body ++ leading)) false)
          (first :: (vs ++ [t])) := by
        simpa [Literal.text] using hawaits [] t leading (List.forall_mem_nil _) hclosing
      have h := Reads.snoc houter hmarkup hnodes hnode
      rwa [← hbefore] at h
    | none =>
      -- The block awaits all tokens up to its end, so this one may be the first of them.
      have hlonger : Context (⟨name, line, .literal isComment (body ++ t.value.toList), before⟩ ::
          outer) trims (ts ++ us ++ first :: (vs ++ [t])) := by
        refine .inside houter hmarkup hnodes hbefore fun ws u leading hws hu => ?_
        have hnode := hawaits (t :: ws) u leading (List.forall_mem_cons.mpr ⟨hclosing, hws⟩) hu
        simpa [Literal.text] using hnode
      exact .literal hlonger rfl

theorem Reads.readMarkup {r : Reader} (hcontext : Context opened trims ts)
    (hopened : ReadsMarkup opened) (hbody : Derives (.body trims nodes trims') us)
    (hread : Reader.readMarkup TagTable.default o ⟨nodes.reverse, opened, trims'⟩ t = .ok r) :
    Reads r (ts ++ us ++ [t]) := by
  unfold Reader.readMarkup at hread
  cases hkind : t.kind with
  | text =>
    simp only [hkind, Except.ok.injEq, addText_eq] at hread
    rw [← hread, List.append_assoc]
    exact .markup hcontext hopened (.text hbody hkind)
  | output =>
    simp only [hkind, trimAround_eq] at hread
    obtain ⟨e, hlocate, hr⟩ := exists_of_bind_eq_ok hread
    cases hr
    exact Reads.snoc hcontext hopened hbody (.output hkind (locate_eq_ok.mp hlocate))
  | tag =>
    simp only [hkind, trimAround_eq] at hread
    cases hsplit : splitTag? t.markup with
    | none =>
      rw [hsplit] at hread
      cases hread
    | some found =>
      obtain ⟨name, markup⟩ := found
      have htag : t.IsTag name markup := ⟨hkind, hsplit⟩
      rw [hsplit] at hread
      obtain ⟨start, hstarts, rfl⟩ | ⟨inner, outer, ending, rfl, hends, rfl⟩ :=
        exists_of_readTag hread
      · exact Reads.afterStart hcontext hopened hbody htag hstarts
      · rw [List.append_assoc]
        exact Reads.afterBody hcontext (.ended hbody htag) hends

theorem Reads.read {r r' : Reader} (h : Reads r ts)
    (hread : r.read TagTable.default o t = .ok r') : Reads r' (ts ++ [t]) := by
  cases h with
  | @literal inner outer _ _ _ _ hcontext hliteral =>
    unfold Reader.read at hread
    cases hblock : inner.block with
    | literal isComment body =>
      simp only [hblock, Except.ok.injEq] at hread
      exact hread ▸ hcontext.readLiteral hblock t
    | _ => simp [hblock, Block.isLiteral] at hliteral
  | markup hcontext hopened hbody =>
    rw [read_of_readsMarkup hopened] at hread
    exact Reads.readMarkup hcontext hopened hbody hread

theorem Reads.readAll {r r' : Reader} (h : Reads r ts)
    (hread : r.readAll TagTable.default o us = .ok r') : Reads r' (ts ++ us) := by
  induction us generalizing r ts with
  | nil =>
    cases hread
    rwa [List.append_nil]
  | cons t us ih =>
    obtain ⟨next, hnext, hrest⟩ := exists_of_bind_eq_ok hread
    rw [List.append_cons]
    exact ih (h.read hnext) hrest

end

end Reader

/-! ## Whole templates -/

theorem derivesTemplate_of_ofTokens {o : Origin} {ts : List Token} {nodes : List Node}
    (h : Node.ofTokens TagTable.default o ts = .ok nodes) : DerivesTemplate nodes ts := by
  obtain ⟨r, hread, hfinish⟩ := exists_of_bind_eq_ok h
  have hreads : Reader.Reads r ts := (Reader.Reads.markup .top nofun .nil).readAll hread
  unfold Reader.finish at hfinish
  cases hreads with
  | literal => cases hfinish
  | @markup opened trims trims' body _ us hcontext _ hbody =>
    cases hcontext with
    | inside => cases hfinish
    | top =>
      simp only [List.reverse_reverse, Except.ok.injEq] at hfinish
      exact ⟨trims', hfinish ▸ hbody⟩

theorem ofTokens_of_derivesTemplate {ts : List Token} {nodes : List Node}
    (h : DerivesTemplate nodes ts) (o : Origin) :
    Node.ofTokens TagTable.default o ts = .ok nodes := by
  obtain ⟨trims, h⟩ := h
  have hread := readAs_of_derives o h [] nofun
  unfold Node.ofTokens Reader.start
  rw [hread]
  exact congrArg Except.ok nodes.reverse_reverse

theorem parse_eq_ok {source : String} {name file : Option String} {isPartial : Bool}
    {t : Template} :
    Template.parse TagTable.default source name file isPartial = .ok t ↔
      DerivesTemplate t.nodes (Token.all source) ∧
        t = ⟨t.nodes, name, file, isPartial, source⟩ := by
  unfold Template.parse
  constructor
  · intro h
    obtain ⟨nodes, hnodes, ht⟩ := exists_of_bind_eq_ok h
    cases ht
    exact ⟨derivesTemplate_of_ofTokens hnodes, rfl⟩
  · rintro ⟨h, ht⟩
    rw [ofTokens_of_derivesTemplate h, ht]
    rfl

/--
A source is a template exactly if the grammar derives its tokens, all of them and each in one place,
and the nodes of the template are the only ones that it derives them for.
-/
theorem parse_iff_derives (source : String) (name file : Option String) (isPartial : Bool) :
    ((∃ t, Template.parse TagTable.default source name file isPartial = .ok t) ↔
      ∃ nodes, DerivesTemplate nodes (Token.all source)) ∧
    ∀ t, Template.parse TagTable.default source name file isPartial = .ok t →
      ∀ nodes, DerivesTemplate nodes (Token.all source) ↔ nodes = t.nodes := by
  have hparse : ∀ nodes, DerivesTemplate nodes (Token.all source) →
      Template.parse TagTable.default source name file isPartial =
        .ok ⟨nodes, name, file, isPartial, source⟩ := by
    intro nodes h
    exact parse_eq_ok.mpr ⟨h, rfl⟩
  constructor
  · constructor
    · rintro ⟨t, ht⟩
      exact ⟨t.nodes, (parse_eq_ok.mp ht).1⟩
    · rintro ⟨nodes, h⟩
      exact ⟨_, hparse nodes h⟩
  · intro t ht nodes
    constructor
    · intro h
      rw [hparse nodes h] at ht
      cases ht
      rfl
    · rintro rfl
      exact (parse_eq_ok.mp ht).1

end Stencil
