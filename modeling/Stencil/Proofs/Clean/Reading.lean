import Stencil.Environment
import Stencil.Proofs.Clean.Markup
import Stencil.Proofs.Token.Pieces

/-!
# Templates without escapes

The tokens of a source are pieces of it, and a reader keeps what it reads of each in a tree. So if
there is no escape in a source, nor in the names of the tags, there is none in the expressions of
the template that is read from it, nor in the error if there is none to read.
-/

namespace Stencil

open Text Markup

/-! ## Tokens -/

theorem Token.clean_value {source : String} (h : Text.Clean source) {t : Token}
    (ht : t ∈ Token.all source) : Text.Clean t.value :=
  NoEscape.of_isInfix h (Token.isInfix_of_mem_all ht)

theorem Token.noEscape_markup {t : Token} (h : Text.Clean t.value) : NoEscape t.markup :=
  NoEscape.of_isInfix h t.markup_isInfix

/-! ## Nodes -/

/-- There is no escape in what the node evaluates. It may have some in what it writes. -/
inductive Node.Clean : Node → Prop
  | text (line : Nat) (value : String) : Node.Clean (.text line value)
  | output {line : Nat} {markup : String} {e : Expr} : e.Clean → Node.Clean (.output line markup e)
  | raw (line : Nat) (name body : String) : Node.Clean (.raw line name body)
  | comment (line : Nat) (name body : String) : Node.Clean (.comment line name body)
  | assign {line : Nat} {assignment : Assignment} : assignment.Clean →
    Node.Clean (.assign line assignment)
  | ifChanged {line : Nat} {body : List Node} : (∀ n ∈ body, Node.Clean n) →
    Node.Clean (.ifChanged line body)
  | conditional {line : Nat} {isNegated : Bool} {branches : List (Chain × List Node)}
    {otherwise : List Node} : (∀ b ∈ branches, b.1.Clean) →
    (∀ b ∈ branches, ∀ n ∈ b.2, Node.Clean n) → (∀ n ∈ otherwise, Node.Clean n) →
    Node.Clean (.conditional line isNegated branches otherwise)
  | loop {line : Nat} {head : LoopHead} {body otherwise : List Node} : head.Clean →
    (∀ n ∈ body, Node.Clean n) → (∀ n ∈ otherwise, Node.Clean n) →
    Node.Clean (.loop line head body otherwise)
  | inclusion {line : Nat} {inclusion : Inclusion} : inclusion.Clean →
    Node.Clean (.inclusion line inclusion)
  | inline (line : Nat) (tag : InlineTag) (markup : String) : Node.Clean (.inline line tag markup)

def Template.Clean (t : Template) : Prop :=
  (∀ n ∈ t.nodes, n.Clean) ∧ ∀ name ∈ t.name, Text.Clean name

inductive Block.Clean : Block → Prop
  | branches {isNegated : Bool} {earlier : List (Chain × List Node)} {condition : Chain} :
    (∀ b ∈ earlier, b.1.Clean) → (∀ b ∈ earlier, ∀ n ∈ b.2, n.Clean) → condition.Clean →
    Block.Clean (.branches isNegated earlier condition)
  | otherwise {isNegated : Bool} {conditions : List (Chain × List Node)} :
    (∀ b ∈ conditions, b.1.Clean) → (∀ b ∈ conditions, ∀ n ∈ b.2, n.Clean) →
    Block.Clean (.otherwise isNegated conditions)
  | loop {markup : LoopMarkup} : markup.Clean → Block.Clean (.loop markup)
  | loopOtherwise {markup : LoopMarkup} {body : List Node} : markup.Clean →
    (∀ n ∈ body, n.Clean) → Block.Clean (.loopOtherwise markup body)
  | ifChanged : Block.Clean .ifChanged
  | literal (isComment : Bool) (body : List Char) : Block.Clean (.literal isComment body)

structure OpenBlock.Clean (b : OpenBlock) : Prop where
  name : Text.Clean b.name
  block : b.block.Clean
  before : ∀ n ∈ b.before, n.Clean

/-! ## Tags -/

inductive TagStart.Clean : TagStart → Prop
  | node {n : Node} : n.Clean → TagStart.Clean (.node n)
  | block {b : Block} : b.Clean → TagStart.Clean (.block b)

inductive BodyEnd.Clean : BodyEnd → Prop
  | closed {n : Node} : n.Clean → BodyEnd.Clean (.closed n)
  | continued {b : Block} : b.Clean → BodyEnd.Clean (.continued b)

section

variable {tag : String} {markup : List Char}

theorem yields_startLiteral (isComment : Bool) (htag : Text.Clean tag) :
    ReadsClean TagStart.Clean (startLiteral isComment tag markup) := by
  unfold startLiteral
  split
  · exact .block (.literal isComment [])
  · exact List.forall_mem_singleton.mpr htag

theorem TagKind.yields_start (kind : TagKind) (line : Nat) (htag : Text.Clean tag)
    (h : NoEscape markup) :
    ReadsClean TagStart.Clean (kind.start line tag markup) := by
  cases kind with
  | assign =>
    exact (Assignment.yields_parse h).bind fun a ha => TagStart.Clean.node (.assign ha)
  | inclusion =>
    exact (Inclusion.yields_parse htag h).bind fun i hi => TagStart.Clean.node (.inclusion hi)
  | inline tag => exact TagStart.Clean.node (.inline line tag _)
  | conditional | «unless» =>
    exact (Chain.yields_parse h).bind fun c hc =>
      TagStart.Clean.block (.branches (List.forall_mem_nil _) (List.forall_mem_nil _) hc)
  | loop =>
    simp only [TagKind.start]
    split
    · next head hsplit =>
      exact TagStart.Clean.block (.loop ⟨markup, LoopMarkup.isIn_of_split? hsplit, h⟩)
    · exact List.forall_mem_singleton.mpr (clean_ofList.mpr h)
  | ifChanged => exact TagStart.Clean.block .ifChanged
  | raw => exact yields_startLiteral false htag
  | comment => exact yields_startLiteral true htag

theorem yields_closeLoop {m : LoopMarkup} (hm : m.Clean) (line : Nat) {body otherwise : List Node}
    (hbody : ∀ n ∈ body, n.Clean) (hotherwise : ∀ n ∈ otherwise, n.Clean) :
    ReadsClean BodyEnd.Clean (closeLoop line m body otherwise) :=
  (LoopMarkup.yields_parse hm).bind fun _ hhead =>
    BodyEnd.Clean.closed (.loop hhead hbody hotherwise)

theorem Block.yields_end {block : Block} (hblock : block.Clean) (line : Nat) {body : List Node}
    (hbody : ∀ n ∈ body, n.Clean) (h : NoEscape markup)
    {ending : Except (Failure SyntaxFault) BodyEnd}
    (hend : block.end? line body tag markup = some ending) :
    ReadsClean BodyEnd.Clean ending := by
  cases hblock with
  | @branches isNegated earlier condition hconditions hbodies hcondition =>
    have hconditions : ∀ b ∈ earlier ++ [(condition, body)], b.1.Clean :=
      List.forall_mem_append.mpr ⟨hconditions, List.forall_mem_singleton.mpr hcondition⟩
    have hbodies : ∀ b ∈ earlier ++ [(condition, body)], ∀ n ∈ b.2, n.Clean :=
      List.forall_mem_append.mpr ⟨hbodies, List.forall_mem_singleton.mpr hbody⟩
    simp only [Block.end?] at hend
    split_ifs at hend <;> cases hend
    · exact BodyEnd.Clean.closed (.conditional hconditions hbodies (List.forall_mem_nil _))
    · exact BodyEnd.Clean.continued (.otherwise hconditions hbodies)
    · exact (Chain.yields_parse h).map fun next hnext =>
        .continued (.branches hconditions hbodies hnext)
  | otherwise hconditions hbodies =>
    simp only [Block.end?] at hend
    split_ifs at hend
    cases hend
    exact BodyEnd.Clean.closed (.conditional hconditions hbodies hbody)
  | loop hm =>
    simp only [Block.end?] at hend
    split_ifs at hend <;> cases hend
    · exact yields_closeLoop hm line hbody (List.forall_mem_nil _)
    · exact BodyEnd.Clean.continued (.loopOtherwise hm hbody)
  | loopOtherwise hm hmain =>
    simp only [Block.end?] at hend
    split_ifs at hend
    cases hend
    exact yields_closeLoop hm line hmain hbody
  | ifChanged =>
    simp only [Block.end?] at hend
    split_ifs at hend
    cases hend
    exact BodyEnd.Clean.closed (.ifChanged hbody)
  | literal isComment text => cases hend

end

/-! ## Readers -/

structure Origin.Clean (o : Origin) : Prop where
  name : ∀ name ∈ o.name, Text.Clean name
  source : Text.Clean o.source

namespace Origin.Clean

variable {o : Origin}

theorem error (h : o.Clean) (line : Nat) {fault : SyntaxFault} (hfault : fault.Clean) :
    (o.error line fault).Clean := ⟨hfault, h.name, clean_some h.source⟩

theorem locate {α : Type} (h : o.Clean) (line : Nat) {P : α → Prop}
    {x : Except (Failure SyntaxFault) α} (hx : ReadsClean P x) :
    Yields (Failure.Clean SyntaxError.Clean) P (o.locate line x) := by
  refine hx.mapError fun failure hfailure => ?_
  cases failure with
  | malformed fault => exact h.error line hfailure
  | overflow => trivial

end Origin.Clean

structure Reader.Clean (r : Reader) : Prop where
  nodes : ∀ n ∈ r.nodes, n.Clean
  opened : ∀ b ∈ r.opened, b.Clean

namespace Reader

section

variable {tags : TagTable} {o : Origin} {r : Reader} {t : Token}

theorem clean_start : start.Clean := ⟨List.forall_mem_nil _, List.forall_mem_nil _⟩

theorem Clean.addNode (h : r.Clean) {node : Node} (hnode : node.Clean) : (r.addNode node).Clean :=
  ⟨List.forall_mem_cons.mpr ⟨hnode, h.nodes⟩, h.opened⟩

theorem Clean.openBlock (h : r.Clean) {name : String} (hname : Text.Clean name) (line : Nat)
    {block : Block} (hblock : block.Clean) : (r.openBlock name line block).Clean :=
  ⟨List.forall_mem_nil _, List.forall_mem_cons.mpr ⟨⟨hname, hblock, h.nodes⟩, h.opened⟩⟩

theorem Clean.addText (h : r.Clean) (line : Nat) (value : String) :
    (r.addText line value).Clean := by
  refine ⟨?_, h.opened⟩
  unfold Reader.addText
  dsimp only
  generalize (if r.trimsNext then trimStart value.toList else value.toList) = cs
  split
  · exact h.nodes
  · exact List.forall_mem_cons.mpr ⟨.text _ _, h.nodes⟩

theorem Clean.trimAround (h : r.Clean) (t : Token) : (r.trimAround t).Clean := by
  refine ⟨?_, h.opened⟩
  have htrim : ∀ nodes : List Node, (∀ n ∈ nodes, n.Clean) → ∀ n ∈ trimLast nodes, n.Clean := by
    intro nodes hnodes
    unfold trimLast
    split
    · have hrest := (List.forall_mem_cons.mp hnodes).2
      dsimp only
      split
      · exact hrest
      · exact List.forall_mem_cons.mpr ⟨.text _ _, hrest⟩
    · exact hnodes
  unfold Reader.trimAround
  dsimp only
  split
  · exact htrim _ h.nodes
  · exact h.nodes

theorem clean_unknownTag (htags : ∀ name ∈ tags.names, Text.Clean name) {name : String}
    (hname : Text.Clean name) : (unknownTag tags name).Clean := by
  unfold unknownTag
  split
  · exact List.forall_mem_singleton.mpr hname
  · refine List.forall_mem_cons.mpr ⟨hname, fun other hother => ?_⟩
    exact htags other (mem_of_closest? (Option.mem_toList.mp hother))

theorem yields_startTag (htags : ∀ name ∈ tags.names, Text.Clean name) (ho : o.Clean)
    (hr : r.Clean) (line : Nat) {name : String} (hname : Text.Clean name) {markup : List Char}
    (h : NoEscape markup) :
    Yields (Failure.Clean SyntaxError.Clean) Reader.Clean (startTag tags o r line name markup) := by
  unfold startTag
  split
  · exact ho.error line (clean_unknownTag htags hname)
  · next kind _ =>
    refine (ho.locate line (kind.yields_start line hname h)).bind fun start hstart => ?_
    cases hstart with
    | node hnode => exact hr.addNode hnode
    | block hblock => exact hr.openBlock hname line hblock

theorem yields_readTag (htags : ∀ name ∈ tags.names, Text.Clean name) (ho : o.Clean)
    (hr : r.Clean) (line : Nat) {name : String} (hname : Text.Clean name) {markup : List Char}
    (h : NoEscape markup) :
    Yields (Failure.Clean SyntaxError.Clean) Reader.Clean (readTag tags o r line name markup) := by
  unfold readTag
  split
  · exact yields_startTag htags ho hr line hname h
  · next inner outer heq =>
    obtain ⟨hinner, houter⟩ := List.forall_mem_cons.mp (heq ▸ hr.opened)
    have hbody : ∀ n ∈ r.nodes.reverse, n.Clean := fun n hn => hr.nodes n (List.mem_reverse.mp hn)
    split
    · exact yields_startTag htags ho hr line hname h
    · next ending hend =>
      -- The fault is the block's, with the block's line, but it quotes no more than this tag.
      have hending := Block.yields_end hinner.block inner.line hbody h hend
      refine (ho.locate inner.line hending).bind fun ending hending => ?_
      cases hending with
      | closed hnode => exact ⟨List.forall_mem_cons.mpr ⟨hnode, hinner.before⟩, houter⟩
      | continued hblock =>
        exact ⟨List.forall_mem_nil _,
          List.forall_mem_cons.mpr ⟨⟨hinner.name, hblock, hinner.before⟩, houter⟩⟩

theorem yields_readMarkup (htags : ∀ name ∈ tags.names, Text.Clean name) (ho : o.Clean)
    (hr : r.Clean) (ht : Text.Clean t.value) :
    Yields (Failure.Clean SyntaxError.Clean) Reader.Clean (r.readMarkup tags o t) := by
  have hmarkup := Token.noEscape_markup ht
  unfold readMarkup
  split
  · exact hr.addText _ _
  · refine (ho.locate t.line (Expr.yields_parse hmarkup)).bind fun e he => ?_
    exact (hr.trimAround t).addNode (.output he)
  · split
    · exact ho.error t.line (List.forall_mem_singleton.mpr ht)
    · next name rest hsplit =>
      obtain ⟨hname, hrest⟩ := parts_of_splitTag? hsplit
      exact yields_readTag htags ho (hr.trimAround t) t.line (hmarkup.of_isInfix hname)
        (hmarkup.of_isInfix hrest)

theorem Clean.readLiteral (hr : r.Clean) {inner : OpenBlock} {outer : List OpenBlock}
    (heq : r.opened = inner :: outer) (isComment : Bool) (body value : List Char) :
    (r.readLiteral inner outer isComment body value).Clean := by
  obtain ⟨hinner, houter⟩ := List.forall_mem_cons.mp (heq ▸ hr.opened)
  unfold Reader.readLiteral
  split
  · have hblock : OpenBlock.Clean { inner with block := .literal isComment (body ++ value) } :=
      ⟨hinner.name, .literal _ _, hinner.before⟩
    exact ⟨hr.nodes, List.forall_mem_cons.mpr ⟨hblock, houter⟩⟩
  · refine ⟨List.forall_mem_cons.mpr ⟨?_, hinner.before⟩, houter⟩
    split
    · exact .comment _ _ _
    · exact .raw _ _ _

theorem yields_read (htags : ∀ name ∈ tags.names, Text.Clean name) (ho : o.Clean)
    (hr : r.Clean) (ht : Text.Clean t.value) :
    Yields (Failure.Clean SyntaxError.Clean) Reader.Clean (r.read tags o t) := by
  unfold read
  split
  · next inner outer heq =>
    split
    · exact hr.readLiteral heq _ _ _
    · exact yields_readMarkup htags ho hr ht
  · exact yields_readMarkup htags ho hr ht

theorem yields_readAll (htags : ∀ name ∈ tags.names, Text.Clean name) (ho : o.Clean)
    (hr : r.Clean) {ts : List Token} (hts : ∀ t ∈ ts, Text.Clean t.value) :
    Yields (Failure.Clean SyntaxError.Clean) Reader.Clean (readAll tags o r ts) := by
  induction ts generalizing r with
  | nil => exact hr
  | cons t ts ih =>
    obtain ⟨ht, hts⟩ := List.forall_mem_cons.mp hts
    exact (yields_read htags ho hr ht).bind fun r' hr' => ih hr' hts

theorem yields_finish (ho : o.Clean) (hr : r.Clean) :
    Yields (Failure.Clean SyntaxError.Clean) (fun ns : List Node => ∀ n ∈ ns, n.Clean)
      (finish o r) := by
  unfold finish
  split
  · exact fun n hn => hr.nodes n (List.mem_reverse.mp hn)
  · next inner outer heq =>
    have hname := (hr.opened inner (heq ▸ List.mem_cons_self)).name
    exact ho.error inner.line (List.forall_mem_singleton.mpr hname)

end

end Reader

/-! ## Templates -/

theorem Environment.yields_parse {env : Environment}
    (htags : ∀ name ∈ env.tags.names, Text.Clean name) {source : String}
    (hsource : Text.Clean source) {name : Option String} (hname : ∀ s ∈ name, Text.Clean s)
    (file : Option String) (isPartial : Bool) :
    Yields Error.Clean Template.Clean (env.parse source name file isPartial) := by
  have ho : Origin.Clean ⟨name, source, isPartial⟩ := ⟨hname, hsource⟩
  have hts : ∀ t ∈ Token.all source, Text.Clean t.value := fun t ht => Token.clean_value hsource ht
  have hnodes := (Reader.yields_readAll htags ho Reader.clean_start hts).bind fun r hr =>
    Reader.yields_finish ho hr
  have hparse : Yields (Failure.Clean SyntaxError.Clean) Template.Clean
      (Template.parse env.tags source name file isPartial) :=
    hnodes.bind fun ns hns => ⟨hns, hname⟩
  unfold Environment.parse
  split
  · next t ht => exact hparse.of_ok ht
  · next e he => exact hparse.of_error he
  · trivial

end Stencil
