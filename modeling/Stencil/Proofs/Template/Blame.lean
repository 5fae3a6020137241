import Stencil.Proofs.Template.Ending
import Stencil.Proofs.Template.Nesting

/-!
# Which token an error is placed at

A source that is no template has one token that is to blame: the first that cannot be read, or a
loop tag whose expressions cannot, or the tag of the innermost block that is never closed. The error
has the line of that token, unless it is a later condition of a conditional.
-/

namespace Stencil

open Markup

/-! ## Malformed tokens -/

/-- What is wrong with a token that ends no body, where only these tags do. -/
inductive Token.Malformed (tags : TagTable) (ends : List String) (t : Token) : SyntaxFault → Prop
  | output {fault : SyntaxFault} :
    t.kind = .output → Expr.parse t.markup = .error (.malformed fault) →
    Malformed tags ends t fault
  | tagName : t.kind = .tag → splitTag? t.markup = none →
    Malformed tags ends t (.invalidTag t.value)
  | unknown {name : String} {markup : List Char} : t.IsTag name markup → name ∉ ends →
    tags.get? name = none → Malformed tags ends t (Reader.unknownTag tags name)
  | directive {name : String} {markup : List Char} {kind : TagKind} {fault : SyntaxFault} :
    t.IsTag name markup → name ∉ ends → tags.get? name = some kind →
    kind.start t.line name markup = .error (.malformed fault) → Malformed tags ends t fault

/-- The tag opens a loop with an expression that cannot be read. -/
def Token.OpensMalformedLoop (tags : TagTable) (t : Token) (fault : SyntaxFault) : Prop :=
  ∃ m, t.Opens tags (.loop m) ∧ m.parse = .error (.malformed fault)

section

variable {line : Nat} {body : List Node} {block : Block} {name : String} {markup : List Char}

/-- What keeps a tag from ending a body: its own condition, or what the tag of a loop says. -/
inductive Block.EndFails (markup : List Char) (fault : SyntaxFault) : Block → String → Prop
  | condition {isNegated : Bool} {earlier : List (Chain × List Node)} {condition : Chain} :
    Chain.parse markup = .error (.malformed fault) →
    EndFails markup fault (.branches isNegated earlier condition) "elsif"
  | loop {block : Block} {m : LoopMarkup} :
    block.kind = .loop m → m.parse = .error (.malformed fault) →
    EndFails markup fault block "endfor"

theorem closeLoop_eq_error {m : LoopMarkup} {main otherwise : List Node} {fault : SyntaxFault}
    (h : closeLoop line m main otherwise = .error (.malformed fault)) :
    m.parse = .error (.malformed fault) := by
  obtain hparse | ⟨head, -, hok⟩ := except_bind_eq_error.mp h
  · exact hparse
  · cases hok

theorem Block.endFails_of_end?_eq {fault : SyntaxFault}
    (h : block.end? line body name markup = some (.error (.malformed fault))) :
    block.EndFails markup fault name := by
  cases block with
  | branches isNegated earlier condition =>
    simp only [Block.end?] at h
    split_ifs at h with hend helse helsif
    · cases h
    · cases h
    · subst helsif
      cases hparse : Chain.parse markup with
      | error fault' =>
        rw [hparse] at h
        cases h
        exact .condition hparse
      | ok next =>
        rw [hparse] at h
        cases h
  | otherwise isNegated conditions =>
    simp only [Block.end?] at h
    split_ifs at h
    cases h
  | loop m =>
    simp only [Block.end?] at h
    split_ifs at h with hend helse
    · subst hend
      exact .loop rfl (closeLoop_eq_error (Option.some.inj h))
    · cases h
  | loopOtherwise m main =>
    simp only [Block.end?] at h
    split_ifs at h with hend
    subst hend
    exact .loop rfl (closeLoop_eq_error (Option.some.inj h))
  | ifChanged =>
    simp only [Block.end?] at h
    split_ifs at h
    cases h
  | literal => cases h

end

namespace Reader

variable {tags : TagTable} {o : Origin} {r : Reader} {t : Token} {e : SyntaxError}

/-! ## One token -/

/-- How a token ends the reading of a source. -/
inductive Stops (tags : TagTable) (o : Origin) (r : Reader) (t : Token) : SyntaxError → Prop
  | token {fault : SyntaxFault} : t.Malformed tags r.endTags fault →
    Stops tags o r t (o.error t.line fault)
  | ending {inner : OpenBlock} {outer : List OpenBlock} {name : String} {markup : List Char}
    {fault : SyntaxFault} : r.opened = inner :: outer → t.IsTag name markup →
    inner.block.EndFails markup fault name → Stops tags o r t (o.error inner.line fault)

theorem locate_eq_malformed {α : Type} {line : Nat} {x : Except (Failure SyntaxFault) α}
    (h : o.locate line x = .error (.malformed e)) :
    ∃ fault, x = .error (.malformed fault) ∧ e = o.error line fault := by
  obtain ⟨failure, rfl, hfailure⟩ := mapError_eq_error.mp h
  cases failure with
  | malformed fault =>
    cases hfailure
    exact ⟨fault, rfl, rfl⟩
  | overflow => cases hfailure

theorem stops_of_startTag {name : String} {markup : List Char} (htag : t.IsTag name markup)
    {nodes : List Node} {trims : Bool} (hends : name ∉ r.endTags)
    (h : startTag tags o ⟨nodes, r.opened, trims⟩ t.line name markup = .error (.malformed e)) :
    Stops tags o r t e := by
  unfold startTag at h
  split at h
  · next hnone =>
    cases h
    exact .token (.unknown htag hends hnone)
  · next kind hkind =>
    obtain hlocate | ⟨start, -, hr⟩ := except_bind_eq_error.mp h
    · obtain ⟨fault, hstart, rfl⟩ := locate_eq_malformed hlocate
      exact .token (.directive htag hends hkind hstart)
    · cases start <;> cases hr

theorem stops_of_readTag {name : String} {markup : List Char} (htag : t.IsTag name markup)
    {nodes : List Node} {trims : Bool}
    (h : readTag tags o ⟨nodes, r.opened, trims⟩ t.line name markup = .error (.malformed e)) :
    Stops tags o r t e := by
  unfold readTag at h
  split at h
  · next hopened =>
    refine stops_of_startTag htag ?_ h
    simp only at hopened
    simp [endTags, hopened]
  · next inner outer hopened =>
    simp only at hopened
    split at h
    · next hnone =>
      refine stops_of_startTag htag ?_ h
      simpa [endTags, hopened] using Block.end?_eq_none_iff.mp hnone
    · next ending hend =>
      obtain hlocate | ⟨ending, -, hr⟩ := except_bind_eq_error.mp h
      · obtain ⟨fault, rfl, rfl⟩ := locate_eq_malformed hlocate
        exact .ending hopened htag (Block.endFails_of_end?_eq hend)
      · cases ending <;> cases hr

theorem stops_of_readMarkup (h : r.readMarkup tags o t = .error (.malformed e)) :
    Stops tags o r t e := by
  unfold readMarkup at h
  split at h
  · cases h
  · next hkind =>
    obtain hlocate | ⟨e, -, hr⟩ := except_bind_eq_error.mp h
    · obtain ⟨fault, hparse, rfl⟩ := locate_eq_malformed hlocate
      exact .token (.output hkind hparse)
    · cases hr
  · next hkind =>
    split at h
    · next hnone =>
      cases h
      exact .token (.tagName hkind hnone)
    · next name markup hsplit => exact stops_of_readTag ⟨hkind, hsplit⟩ h

theorem stops_of_read (h : r.read tags o t = .error (.malformed e)) : Stops tags o r t e := by
  obtain hmarkup | ⟨inner, outer, isComment, body, hopened, hblock⟩ :=
    readsMarkup_or_literal r.opened
  · rw [read_of_readsMarkup hmarkup] at h
    exact stops_of_readMarkup h
  · rw [read_of_literal hopened hblock] at h
    cases h

/-! ## The innermost block -/

/--
The token opened the innermost block that is open after these tokens: it opened one, which since
then was not closed, and of those opened later none is open any more.
-/
inductive OpensInnermost (tags : TagTable) (o : Origin) (ts : List Token) (u : Token) : Prop
  | mk {before inside : List Token} {r₀ r₁ r₂ : Reader} : ts = before ++ u :: inside →
    start.readAll tags o before = .ok r₀ → r₀.read tags o u = .ok r₁ →
    r₁.opened.length = r₀.opened.length + 1 → Within tags r₁.opened.length r₁ inside r₂ →
    r₂.opened.length = r₁.opened.length → OpensInnermost tags o ts u

/-- The innermost block was opened by a token, which has its line, its name and its kind. -/
theorem exists_opensInnermost {ts : List Token} {inner : OpenBlock} {outer : List OpenBlock}
    (hread : start.readAll tags o ts = .ok r) (hopened : r.opened = inner :: outer) :
    ∃ u, OpensInnermost tags o ts u ∧ u.line = inner.line ∧ u.Opens tags inner.block.kind ∧
      ∃ markup, u.IsTag inner.name markup := by
  obtain ⟨u, hts, hbefore, hu, houter, hlength, hwithin, hline, htag, hopens⟩ :=
    traced_of_readAll hread [] inner outer hopened
  rw [← hlength] at hwithin
  rw [← houter] at hlength
  have hend : r.opened.length = outer.length + 1 := by rw [hopened, List.length_cons]
  have hmk := OpensInnermost.mk hts hbefore hu hlength hwithin (by rw [hend, hlength, houter])
  exact ⟨u, hmk, hline, hopens, _, htag⟩

end Reader

/-! ## All tokens -/

/--
Which token an error is placed at. A token that cannot be read has its own line. Of a loop it is the
end tag that is not read, for what the opening tag says. The condition of a later branch is taken
for one of the tag that opened the conditional.
-/
inductive Origin.Blames (o : Origin) (tags : TagTable) (ts : List Token) : SyntaxError → Prop
  | token {before after : List Token} {t : Token} {r : Reader} {fault : SyntaxFault} :
    ts = before ++ t :: after → Reader.start.readAll tags o before = .ok r →
    t.Malformed tags r.endTags fault → Blames o tags ts (o.error t.line fault)
  | loop {before after : List Token} {t u : Token} {markup : List Char} {fault : SyntaxFault} :
    ts = before ++ t :: after → Reader.OpensInnermost tags o before u →
    u.OpensMalformedLoop tags fault → t.IsTag "endfor" markup →
    Blames o tags ts (o.error u.line fault)
  | laterCondition {before after : List Token} {t u : Token} {isNegated : Bool}
    {markup : List Char} {fault : SyntaxFault} :
    ts = before ++ t :: after → Reader.OpensInnermost tags o before u →
    u.Opens tags (.conditional isNegated) → t.IsTag "elsif" markup →
    Chain.parse markup = .error (.malformed fault) → Blames o tags ts (o.error u.line fault)
  | unclosed {u : Token} {name : String} {markup : List Char} :
    Reader.OpensInnermost tags o ts u → u.IsTag name markup →
    Blames o tags ts (o.error u.line (.unterminated name))

section

variable {tags : TagTable} {o : Origin} {e : SyntaxError}

theorem Reader.Stops.blames {before after : List Token} {t : Token} {r : Reader}
    (hread : Reader.start.readAll tags o before = .ok r) (h : Stops tags o r t e) :
    o.Blames tags (before ++ t :: after) e := by
  cases h with
  | token hmalformed => exact .token rfl hread hmalformed
  | @ending inner outer name markup fault hopened htag hfails =>
    obtain ⟨u, hu, hline, hopens, -⟩ := exists_opensInnermost hread hopened
    rw [← hline]
    generalize hblock : inner.block = block at hfails hopens
    cases hfails with
    | condition hparse => exact .laterCondition rfl hu hopens htag hparse
    | loop hkind hparse => exact .loop rfl hu ⟨_, hkind ▸ hopens, hparse⟩ htag

theorem Node.blames_of_ofTokens {ts : List Token}
    (h : Node.ofTokens tags o ts = .error (.malformed e)) :
    o.Blames tags ts e := by
  obtain hread | ⟨r, hread, hfinish⟩ := except_bind_eq_error.mp h
  · obtain ⟨before, t, after, r, rfl, hbefore, ht⟩ := Reader.exists_of_readAll_eq_error hread
    exact (Reader.stops_of_read ht).blames hbefore
  · unfold Reader.finish at hfinish
    split at hfinish
    · cases hfinish
    · next inner outer hopened =>
      cases hfinish
      obtain ⟨u, hu, hline, -, markup, htag⟩ := Reader.exists_opensInnermost hread hopened
      rw [← hline]
      exact .unclosed hu htag

end

/--
A source that is no template has a token that is to blame, whose line the error has: the first that
cannot be read, the tag of a loop whose expressions cannot, or the tag of the innermost block that
is never closed. The one exception is a later condition of a conditional, for which the line is that
of the tag that opened it.
-/
theorem Template.syntax_error_is_placed {tags : TagTable} {source : String}
    {name file : Option String} {isPartial : Bool} {e : SyntaxError}
    (h : Template.parse tags source name file isPartial = .error (.malformed e)) :
    Origin.Blames ⟨name, source, isPartial⟩ tags (Token.all source) e := by
  obtain hnodes | ⟨nodes, -, hok⟩ := except_bind_eq_error.mp h
  · exact Node.blames_of_ofTokens hnodes
  · cases hok

/-- Two blocks, the inner one on the second line, that are never closed. -/
def unclosedPage : Origin := ⟨none, "\x7b% if a %\x7d\n\x7b% for x in xs %\x7d", false⟩

theorem Template.unclosedPage_is_placed :
    Template.parse .default unclosedPage.source none none false =
      .error (.malformed (unclosedPage.error 2 (.unterminated "for"))) ∧
    unclosedPage.Blames .default (Token.all unclosedPage.source)
      (unclosedPage.error 2 (.unterminated "for")) := by
  have hparse : Template.parse .default unclosedPage.source none none false =
      .error (.malformed (unclosedPage.error 2 (.unterminated "for"))) := by with_unfolding_all rfl
  exact ⟨hparse, Template.syntax_error_is_placed hparse⟩

/-- A later branch, on the second line, that has no condition. -/
def bareBranchPage : Origin :=
  ⟨some "page", "\x7b% if a %\x7d\n\x7b% elsif %\x7dx\x7b% endif %\x7d", false⟩

/-- The line of a condition that cannot be read is not that of its own tag. -/
theorem Template.bareBranchPage_is_misplaced :
    ∃ e t, Template.parse .default bareBranchPage.source (some "page") none false =
        .error (.malformed e) ∧
      t ∈ Token.all bareBranchPage.source ∧ t.IsTag "elsif" [] ∧
      Chain.parse [] = .error (.malformed e.fault) ∧
      e.line ≠ some (t.line : Int) := by
  have htokens : Token.all bareBranchPage.source =
      [⟨.tag, "\x7b% if a %\x7d", 1⟩, ⟨.text, "\n", 1⟩, ⟨.tag, "\x7b% elsif %\x7d", 2⟩,
        ⟨.text, "x", 2⟩, ⟨.tag, "\x7b% endif %\x7d", 2⟩] := by with_unfolding_all rfl
  have hempty : Chain.parse [] = .error (.malformed .noCondition) := by with_unfolding_all rfl
  refine ⟨bareBranchPage.error 1 .noCondition, ⟨.tag, "\x7b% elsif %\x7d", 2⟩, ?_, ?_, ?_,
    hempty, ?_⟩
  · with_unfolding_all rfl
  · rw [htokens]
    simp
  · exact ⟨rfl, by with_unfolding_all rfl⟩
  · decide

end Stencil
