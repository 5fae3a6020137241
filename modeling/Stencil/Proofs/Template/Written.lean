import Stencil.Environment
import Stencil.Proofs.Template.Steps

/-!
# Where expressions are written

Whatever tags there are, each expression of a template is written in one of its tokens, and the node
that holds it has the line of that token. Only the later conditions of a conditional are written in
other tokens than the one whose line the node has.
-/

namespace Stencil

open Markup

/-! ## Expressions in tokens -/

def Condition.exprs (c : Condition) : List Expr := c.left :: (c.test.map (·.2)).toList

def Chain.exprs (c : Chain) : List Expr := c.conditions.flatMap Condition.exprs

def Markup.LoopHead.exprs (h : LoopHead) : List Expr :=
  h.collection :: (h.offset.toList ++ h.limit.toList)

/-- The name of a partial, and what it is bound to. -/
def Markup.Inclusion.exprs (i : Inclusion) : List Expr := i.template :: i.bound.toList

/--
How an expression is written: as the condition of a tag that comes later in a block, as an attribute
of an inclusion, or in any other way.
-/
inductive Position
  | main
  | laterCondition
  | attribute
deriving DecidableEq, Repr

namespace Token

variable (tags : TagTable) (t : Token)

/-- The token is a tag that starts this. -/
inductive Starts (start : TagStart) : Prop
  | mk {name : String} {markup : List Char} {kind : TagKind} : t.IsTag name markup →
    tags.get? name = some kind → kind.start t.line name markup = .ok start → Starts start

/-- The token opens a conditional with this condition. -/
def OpensConditional (c : Chain) : Prop :=
  ∃ isNegated, t.Starts tags (.block (.branches isNegated [] c))

/-- The expression is written in the token. -/
inductive Writes : Position → Expr → Prop
  | output {e : Expr} : t.kind = .output → Expr.parse t.markup = .ok e → Writes .main e
  | assign {a : Assignment} : t.Starts tags (.node (.assign t.line a)) → Writes .main a.source
  | condition {c : Chain} {e : Expr} : t.OpensConditional tags c → e ∈ c.exprs → Writes .main e
  | laterCondition {markup : List Char} {c : Chain} {e : Expr} : t.IsTag "elsif" markup →
    Chain.parse markup = .ok c → e ∈ c.exprs → Writes .laterCondition e
  | loop {m : LoopMarkup} {head : LoopHead} {e : Expr} : t.Starts tags (.block (.loop m)) →
    m.parse = .ok head → e ∈ head.exprs → Writes .main e
  | inclusion {i : Inclusion} {e : Expr} : t.Starts tags (.node (.inclusion t.line i)) →
    e ∈ i.exprs → Writes .main e
  | attribute {i : Inclusion} {key : String} {e : Expr} :
    t.Starts tags (.node (.inclusion t.line i)) → (key, e) ∈ i.attributes → Writes .attribute e

end Token

/-! ## Nodes of tokens -/

section

variable (tags : TagTable) (ts : List Token)

/-- The condition of a conditional on this line is written in its opening tag, or in a later one. -/
inductive Chain.Written : Nat → Chain → Prop
  | opening {t : Token} {c : Chain} : t ∈ ts → t.OpensConditional tags c → Written t.line c
  | later {u t : Token} {markup : List Char} {c₀ c : Chain} : [u, t].Sublist ts →
    u.OpensConditional tags c₀ → t.IsTag "elsif" markup → Chain.parse markup = .ok c →
    Written u.line c

/-- All expressions of the node are written in these tokens. -/
inductive Node.Written : Node → Prop
  | text {line : Nat} {value : String} : Written (.text line value)
  | output {t : Token} {markup : String} {e : Expr} : t ∈ ts → t.kind = .output →
    Expr.parse t.markup = .ok e → Written (.output t.line markup e)
  | raw {line : Nat} {name body : String} : Written (.raw line name body)
  | comment {line : Nat} {name body : String} : Written (.comment line name body)
  | assign {t : Token} {a : Assignment} : t ∈ ts → t.Starts tags (.node (.assign t.line a)) →
    Written (.assign t.line a)
  | ifChanged {line : Nat} {body : List Node} : (∀ n ∈ body, Written n) →
    Written (.ifChanged line body)
  | conditional {line : Nat} {isNegated : Bool} {branches : List (Chain × List Node)}
    {otherwise : List Node} : (∀ b ∈ branches, b.1.Written tags ts line) →
    (∀ b ∈ branches, ∀ n ∈ b.2, Written n) → (∀ n ∈ otherwise, Written n) →
    Written (.conditional line isNegated branches otherwise)
  | loop {t : Token} {m : LoopMarkup} {head : LoopHead} {body otherwise : List Node} : t ∈ ts →
    t.Starts tags (.block (.loop m)) → m.parse = .ok head → (∀ n ∈ body, Written n) →
    (∀ n ∈ otherwise, Written n) → Written (.loop t.line head body otherwise)
  | inclusion {t : Token} {i : Inclusion} : t ∈ ts →
    t.Starts tags (.node (.inclusion t.line i)) → Written (.inclusion t.line i)
  | inline {t : Token} {tag : InlineTag} {markup : String} : t ∈ ts →
    t.Starts tags (.node (.inline t.line tag markup)) → Written (.inline t.line tag markup)

def AllWritten (ns : List Node) : Prop := ∀ n ∈ ns, n.Written tags ts

/-- The conditions and the bodies of a conditional on this line. -/
def BranchesWritten (line : Nat) (branches : List (Chain × List Node)) : Prop :=
  ∀ b ∈ branches, b.1.Written tags ts line ∧ AllWritten tags ts b.2

/-- The same for a block that is still open. -/
def Block.Written (line : Nat) : Block → Prop
  | .branches _ earlier c => (∃ t ∈ ts, t.line = line ∧ ∃ c₀, t.OpensConditional tags c₀) ∧
    c.Written tags ts line ∧ BranchesWritten tags ts line earlier
  | .otherwise _ conditions => BranchesWritten tags ts line conditions
  | .loop m => ∃ t ∈ ts, t.line = line ∧ t.Starts tags (.block (.loop m))
  | .loopOtherwise m body =>
    (∃ t ∈ ts, t.line = line ∧ t.Starts tags (.block (.loop m))) ∧ AllWritten tags ts body
  | .ifChanged => True
  | .literal .. => True

/-- All that a reader has come to know is written in these tokens. -/
structure Reader.Written (r : Reader) : Prop where
  nodes : AllWritten tags ts r.nodes
  opened : ∀ b ∈ r.opened, b.block.Written tags ts b.line ∧ AllWritten tags ts b.before

end

/-! ## More tokens -/

section

variable {tags : TagTable} {ts us : List Token}

theorem Chain.Written.mono (hsub : ts.Sublist us) {line : Nat} {c : Chain}
    (h : c.Written tags ts line) : c.Written tags us line := by
  cases h with
  | opening ht hopens => exact .opening (hsub.subset ht) hopens
  | later hbefore hopens htag hparse => exact .later (hbefore.trans hsub) hopens htag hparse

theorem Node.Written.mono (hsub : ts.Sublist us) {n : Node} (h : n.Written tags ts) :
    n.Written tags us := by
  induction h with
  | text => exact .text
  | output ht hkind hparse => exact .output (hsub.subset ht) hkind hparse
  | raw => exact .raw
  | comment => exact .comment
  | assign ht hstarts => exact .assign (hsub.subset ht) hstarts
  | ifChanged _ ih => exact .ifChanged ih
  | conditional hchains _ _ ihbodies ihotherwise =>
    exact .conditional (fun b hb => (hchains b hb).mono hsub) ihbodies ihotherwise
  | loop ht hstarts hparse _ _ ihbody ihotherwise =>
    exact .loop (hsub.subset ht) hstarts hparse ihbody ihotherwise
  | inclusion ht hstarts => exact .inclusion (hsub.subset ht) hstarts
  | inline ht hstarts => exact .inline (hsub.subset ht) hstarts

theorem AllWritten.mono (hsub : ts.Sublist us) {ns : List Node} (h : AllWritten tags ts ns) :
    AllWritten tags us ns := fun n hn => (h n hn).mono hsub

theorem BranchesWritten.mono (hsub : ts.Sublist us) {line : Nat}
    {branches : List (Chain × List Node)} (h : BranchesWritten tags ts line branches) :
    BranchesWritten tags us line branches :=
  fun b hb => ⟨(h b hb).1.mono hsub, (h b hb).2.mono hsub⟩

theorem Block.Written.mono (hsub : ts.Sublist us) {line : Nat} {block : Block}
    (h : block.Written tags ts line) : block.Written tags us line := by
  cases block with
  | branches isNegated earlier c =>
    obtain ⟨⟨t, ht, hline, hopens⟩, hc, hearlier⟩ := h
    exact ⟨⟨t, hsub.subset ht, hline, hopens⟩, hc.mono hsub, hearlier.mono hsub⟩
  | otherwise isNegated conditions => exact BranchesWritten.mono hsub h
  | loop m =>
    obtain ⟨t, ht, hline, hstarts⟩ := h
    exact ⟨t, hsub.subset ht, hline, hstarts⟩
  | loopOtherwise m body =>
    obtain ⟨⟨t, ht, hline, hstarts⟩, hbody⟩ := h
    exact ⟨⟨t, hsub.subset ht, hline, hstarts⟩, hbody.mono hsub⟩
  | ifChanged => trivial
  | literal isComment body => trivial

theorem Reader.Written.mono (hsub : ts.Sublist us) {r : Reader} (h : r.Written tags ts) :
    r.Written tags us where
  nodes := h.nodes.mono hsub
  opened b hb := ⟨(h.opened b hb).1.mono hsub, (h.opened b hb).2.mono hsub⟩

end

/-! ## One tag -/

section

variable {tags : TagTable} {ts : List Token} {t : Token}

/-- What a tag starts is written in it. -/
def TagStart.Written (tags : TagTable) (ts : List Token) (line : Nat) : TagStart → Prop
  | .node n => n.Written tags ts
  | .block b => b.Written tags ts line

theorem Token.Starts.written (ht : t ∈ ts) {start : TagStart} (h : t.Starts tags start) :
    start.Written tags ts t.line := by
  have hstarts := h
  obtain @⟨name, markup, kind, htag, hkind, hstart⟩ := h
  cases kind with
  | assign =>
    obtain ⟨a, -, ha⟩ := exists_of_bind_eq_ok hstart
    cases ha
    exact .assign ht hstarts
  | inclusion =>
    obtain ⟨i, -, hi⟩ := exists_of_bind_eq_ok hstart
    cases hi
    exact .inclusion ht hstarts
  | inline tag =>
    cases hstart
    exact .inline ht hstarts
  | conditional | «unless» =>
    obtain ⟨c, -, hc⟩ := exists_of_bind_eq_ok hstart
    cases hc
    exact ⟨⟨t, ht, rfl, c, _, hstarts⟩, .opening ht ⟨_, hstarts⟩, nofun⟩
  | loop =>
    simp only [TagKind.start] at hstart
    split at hstart
    · cases hstart
      exact ⟨t, ht, rfl, hstarts⟩
    · cases hstart
  | ifChanged =>
    cases hstart
    trivial
  | raw | comment =>
    simp only [TagKind.start, startLiteral] at hstart
    split at hstart
    · cases hstart
      trivial
    · cases hstart

theorem BranchesWritten.concat {line : Nat} {branches : List (Chain × List Node)} {c : Chain}
    {body : List Node} (h : BranchesWritten tags ts line branches) (hc : c.Written tags ts line)
    (hbody : AllWritten tags ts body) :
    BranchesWritten tags ts line (branches ++ [(c, body)]) := by
  intro b hb
  rcases List.mem_append.mp hb with hb | hb
  · exact h b hb
  · cases List.mem_singleton.mp hb
    exact ⟨hc, hbody⟩

theorem BranchesWritten.conditional {line : Nat} {isNegated : Bool}
    {branches : List (Chain × List Node)} {otherwise : List Node}
    (h : BranchesWritten tags ts line branches) (hotherwise : AllWritten tags ts otherwise) :
    (Node.conditional line isNegated branches otherwise).Written tags ts :=
  .conditional (fun b hb => (h b hb).1) (fun b hb => (h b hb).2) hotherwise

/-- What becomes of a block at the end of a body. -/
def BodyEnd.Written (tags : TagTable) (ts : List Token) (line : Nat) : BodyEnd → Prop
  | .closed n => n.Written tags ts
  | .continued b => b.Written tags ts line

theorem Block.Ends.written {line : Nat} {body : List Node} {block : Block} {name : String}
    {markup : List Char} {ending : BodyEnd} (h : block.Ends line body name markup ending)
    (htag : t.IsTag name markup) (hblock : block.Written tags ts line)
    (hbody : AllWritten tags ts body) : ending.Written tags (ts ++ [t]) line := by
  have hsub : ts.Sublist (ts ++ [t]) := List.sublist_append_left ts [t]
  have hbody := hbody.mono hsub
  cases h with
  | lastBranch =>
    obtain ⟨-, hc, hearlier⟩ := hblock.mono hsub
    exact (BranchesWritten.concat hearlier hc hbody).conditional nofun
  | elseBranch =>
    obtain ⟨-, hc, hearlier⟩ := hblock.mono hsub
    exact BranchesWritten.concat hearlier hc hbody
  | elsifBranch hparse =>
    obtain ⟨hopening, hc, hearlier⟩ := hblock.mono hsub
    obtain ⟨u, hu, rfl, c₀, hopens⟩ := hblock.1
    have hbefore : [u, t].Sublist (ts ++ [t]) :=
      (List.singleton_sublist.mpr hu).append (List.Sublist.refl [t])
    exact ⟨hopening, .later hbefore hopens htag hparse, BranchesWritten.concat hearlier hc hbody⟩
  | otherwise => exact BranchesWritten.conditional (hblock.mono hsub) hbody
  | loop hparse =>
    obtain ⟨u, hu, rfl, hstarts⟩ := hblock.mono hsub
    exact .loop hu hstarts hparse hbody nofun
  | loopElse => exact ⟨hblock.mono hsub, hbody⟩
  | loopOtherwise hparse =>
    obtain ⟨⟨u, hu, rfl, hstarts⟩, hmain⟩ := hblock.mono hsub
    exact .loop hu hstarts hparse hmain hbody
  | ifChanged => exact .ifChanged hbody

end

/-! ## One token -/

section

variable {tags : TagTable} {ts : List Token} {t : Token}

theorem AllWritten.cons {n : Node} {ns : List Node} (hn : n.Written tags ts)
    (h : AllWritten tags ts ns) : AllWritten tags ts (n :: ns) := by
  rintro m (_ | ⟨_, hm⟩)
  · exact hn
  · exact h m hm

theorem AllWritten.trimLast {ns : List Node} (h : AllWritten tags ts ns) :
    AllWritten tags ts (Reader.trimLast ns) := by
  unfold Reader.trimLast
  split
  · next line value rest =>
    have hrest : AllWritten tags ts rest := fun n hn => h n (List.mem_cons_of_mem _ hn)
    dsimp only
    split
    · exact hrest
    · exact hrest.cons .text
  · exact h

theorem AllWritten.reverse {ns : List Node} (h : AllWritten tags ts ns) :
    AllWritten tags ts ns.reverse := fun n hn => h n (List.mem_reverse.mp hn)

namespace Reader

variable {o : Origin} {r r' : Reader}

theorem Written.addText (h : r.Written tags ts) (line : Nat) (value : String) :
    (r.addText line value).Written tags ts := by
  refine ⟨?_, h.opened⟩
  unfold Reader.addText
  dsimp only
  generalize (if r.trimsNext then Text.trimStart value.toList else value.toList) = cs
  split
  · exact h.nodes
  · exact h.nodes.cons .text

theorem Written.trimAround (h : r.Written tags ts) (u : Token) :
    (r.trimAround u).Written tags ts := by
  refine ⟨?_, h.opened⟩
  unfold Reader.trimAround
  dsimp only
  split
  · exact h.nodes.trimLast
  · exact h.nodes

theorem Written.addNode (h : r.Written tags ts) {n : Node} (hn : n.Written tags ts) :
    (r.addNode n).Written tags ts := ⟨h.nodes.cons hn, h.opened⟩

theorem written_of_opened {nodes : List Node} {opened : List OpenBlock} {trims : Bool}
    {inner : OpenBlock} (hnodes : AllWritten tags ts nodes)
    (hinner : inner.block.Written tags ts inner.line ∧ AllWritten tags ts inner.before)
    (hopened : ∀ b ∈ opened, b.block.Written tags ts b.line ∧ AllWritten tags ts b.before) :
    Written tags ts ⟨nodes, inner :: opened, trims⟩ := by
  refine ⟨hnodes, ?_⟩
  rintro b (_ | ⟨_, hb⟩)
  · exact hinner
  · exact hopened b hb

theorem Written.startTag (h : r.Written tags ts) {name : String} {markup : List Char}
    (htag : t.IsTag name markup) (hread : startTag tags o r t.line name markup = .ok r') :
    r'.Written tags (ts ++ [t]) := by
  have h := h.mono (List.sublist_append_left ts [t])
  have ht : t ∈ ts ++ [t] := List.mem_append_right ts List.mem_cons_self
  unfold Reader.startTag at hread
  split at hread
  · cases hread
  · next kind hkind =>
    obtain ⟨start, hlocate, hr⟩ := exists_of_bind_eq_ok hread
    have hstarts : t.Starts tags start := ⟨htag, hkind, locate_eq_ok.mp hlocate⟩
    have hwritten := hstarts.written ht
    cases start with
    | node n =>
      cases hr
      exact h.addNode hwritten
    | block b =>
      cases hr
      exact written_of_opened nofun ⟨hwritten, h.nodes⟩ h.opened

theorem Written.readTag (h : r.Written tags ts) {name : String} {markup : List Char}
    (htag : t.IsTag name markup) (hread : readTag tags o r t.line name markup = .ok r') :
    r'.Written tags (ts ++ [t]) := by
  unfold Reader.readTag at hread
  split at hread
  · exact h.startTag htag hread
  · next inner outer hopened =>
    split at hread
    · exact h.startTag htag hread
    · next ending hend =>
      obtain ⟨ending, hlocate, hr⟩ := exists_of_bind_eq_ok hread
      rw [locate_eq_ok.mp hlocate] at hend
      have hinner := h.opened inner (hopened ▸ List.mem_cons_self)
      have hwritten :=
        (Block.ends_of_end?_eq hend).written htag hinner.1 h.nodes.reverse
      have h := h.mono (List.sublist_append_left ts [t])
      have hinner := h.opened inner (hopened ▸ List.mem_cons_self)
      have houter : ∀ b ∈ outer, _ := fun b hb => h.opened b (hopened ▸ List.mem_cons_of_mem _ hb)
      cases ending with
      | closed n =>
        cases hr
        exact ⟨hinner.2.cons hwritten, houter⟩
      | continued b =>
        cases hr
        exact written_of_opened nofun ⟨hwritten, hinner.2⟩ houter

theorem Written.readMarkup (h : r.Written tags ts) (hread : r.readMarkup tags o t = .ok r') :
    r'.Written tags (ts ++ [t]) := by
  unfold Reader.readMarkup at hread
  split at hread
  · cases hread
    exact (h.mono (List.sublist_append_left ts [t])).addText _ _
  · next hkind =>
    obtain ⟨e, hlocate, hr⟩ := exists_of_bind_eq_ok hread
    cases hr
    have ht : t ∈ ts ++ [t] := List.mem_append_right ts List.mem_cons_self
    have h := (h.trimAround t).mono (List.sublist_append_left ts [t])
    exact h.addNode (.output ht hkind (locate_eq_ok.mp hlocate))
  · next hkind =>
    split at hread
    · cases hread
    · next name markup hsplit => exact (h.trimAround t).readTag ⟨hkind, hsplit⟩ hread

theorem Written.readLiteral (h : r.Written tags ts) {inner : OpenBlock} {outer : List OpenBlock}
    (hopened : r.opened = inner :: outer) (isComment : Bool) (body value : List Char) :
    (r.readLiteral inner outer isComment body value).Written tags ts := by
  have hinner := h.opened inner (hopened ▸ List.mem_cons_self)
  have houter : ∀ b ∈ outer, _ := fun b hb => h.opened b (hopened ▸ List.mem_cons_of_mem _ hb)
  unfold Reader.readLiteral
  split
  · exact written_of_opened h.nodes ⟨trivial, hinner.2⟩ houter
  · cases isComment with
    | true => exact ⟨hinner.2.cons .comment, houter⟩
    | false => exact ⟨hinner.2.cons .raw, houter⟩

theorem Written.read (h : r.Written tags ts) (hread : r.read tags o t = .ok r') :
    r'.Written tags (ts ++ [t]) := by
  unfold Reader.read at hread
  split at hread
  · next inner outer hopened =>
    split at hread
    · cases hread
      exact (h.readLiteral hopened _ _ _).mono (List.sublist_append_left ts [t])
    · exact h.readMarkup hread
  · exact h.readMarkup hread

theorem Written.readAll (h : r.Written tags ts) {us : List Token}
    (hread : r.readAll tags o us = .ok r') : r'.Written tags (ts ++ us) := by
  induction us generalizing r ts with
  | nil =>
    cases hread
    rwa [List.append_nil]
  | cons t us ih =>
    obtain ⟨r₁, hfirst, hrest⟩ := exists_of_bind_eq_ok hread
    rw [List.append_cons]
    exact ih (h.read hfirst) hrest

end Reader

end

/-! ## Whole templates -/

def Template.tokens (t : Template) : List Token := Token.all t.source

/-- Where every expression of a template is written. -/
theorem Environment.written_of_parse {env : Environment} {source : String}
    {name file : Option String} {isPartial : Bool} {t : Template}
    (h : env.parse source name file isPartial = .ok t) : AllWritten env.tags t.tokens t.nodes := by
  unfold Environment.parse at h
  split at h
  · next t' hparse =>
    cases h
    obtain ⟨ns, hnodes, ht⟩ := exists_of_bind_eq_ok hparse
    cases ht
    obtain ⟨r, hread, hfinish⟩ := exists_of_bind_eq_ok hnodes
    have hstart : Reader.start.Written env.tags [] := ⟨nofun, nofun⟩
    have hr := hstart.readAll hread
    unfold Reader.finish at hfinish
    split at hfinish
    · cases hfinish
      exact hr.nodes.reverse
    · cases hfinish
  all_goals cases h

end Stencil
