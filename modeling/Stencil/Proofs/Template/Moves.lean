import Stencil.Proofs.Template.Written

/-!
# What one token does

Whatever tags there are, a token is text, makes a node, opens a block, or ends a body of the block
that it stands in; or it is part of a literal block, or closes one.
-/

namespace Stencil

open Markup

/-- The token is whole in itself and makes this node. -/
inductive Token.Makes (tags : TagTable) (t : Token) : Node → Prop
  | output {e : Expr} : t.kind = .output → Expr.parse t.markup = .ok e →
    Makes tags t (.output t.line (String.ofList t.markup) e)
  | tag {n : Node} : t.kind = .tag → t.Starts tags (.node n) → Makes tags t n

theorem Token.IsTag.kind_ne {t : Token} {name : String} {markup : List Char}
    (h : t.IsTag name markup) : t.kind ≠ .text := by
  rw [h.kind]
  nofun

theorem Token.Makes.kind_ne {tags : TagTable} {t : Token} {n : Node} (h : t.Makes tags n) :
    t.kind ≠ .text := by
  cases h with
  | output hkind =>
    rw [hkind]
    nofun
  | tag hkind =>
    rw [hkind]
    nofun

/-! ## Tags that end a body -/

/-- The tags that end the open body of a block. -/
def Block.endTags : Block → List String
  | .branches isNegated _ _ => [conditionalEnd isNegated, "else", "elsif"]
  | .otherwise isNegated _ => [conditionalEnd isNegated]
  | .loop _ => ["endfor", "else"]
  | .loopOtherwise .. => ["endfor"]
  | .ifChanged => ["endifchanged"]
  | .literal .. => []

/-- The tags that end the body that is read. -/
def Reader.endTags (r : Reader) : List String := (r.opened.head?.map (·.block.endTags)).getD []

section

variable {line : Nat} {body : List Node} {block : Block} {name : String} {markup : List Char}

theorem Block.end?_eq_none_iff :
    block.end? line body name markup = none ↔ name ∉ block.endTags := by
  cases block with
  | branches isNegated earlier condition =>
    simp only [Block.end?, endTags]
    split_ifs <;> simp [*]
  | otherwise isNegated conditions =>
    simp only [Block.end?, endTags]
    split_ifs <;> simp [*]
  | loop m =>
    simp only [Block.end?, endTags]
    split_ifs <;> simp [*]
  | loopOtherwise m main =>
    simp only [Block.end?, endTags]
    split_ifs <;> simp [*]
  | ifChanged =>
    simp only [Block.end?, endTags]
    split_ifs <;> simp [*]
  | literal => simp [Block.end?, endTags]

end

/-- The token is one of the tags that end a body. -/
def Token.EndsBody (t : Token) (ends : List String) : Prop :=
  ∃ name markup, t.IsTag name markup ∧ name ∈ ends

theorem Token.IsTag.endsBody_iff {t : Token} {name : String} {markup : List Char}
    (h : t.IsTag name markup) {ends : List String} : t.EndsBody ends ↔ name ∈ ends := by
  constructor
  · rintro ⟨name', markup', htag, hmem⟩
    cases h.split.symm.trans htag.split
    exact hmem
  · exact fun hmem => ⟨name, markup, h, hmem⟩

namespace Reader

/-! ## Moves -/

/-- What a reader becomes when it reads a token. -/
inductive Moves (tags : TagTable) (r : Reader) (t : Token) : Reader → Prop
  | inside {inner : OpenBlock} {outer : List OpenBlock} {isComment : Bool} {body : List Char} :
    r.opened = inner :: outer → inner.block = .literal isComment body →
    Literal.closing? inner.name t.value.toList = none →
    Moves tags r t { r with
      opened := { inner with block := .literal isComment (body ++ t.value.toList) } :: outer }
  | closesLiteral {inner : OpenBlock} {outer : List OpenBlock} {isComment : Bool}
    {body leading : List Char} :
    r.opened = inner :: outer → inner.block = .literal isComment body →
    Literal.closing? inner.name t.value.toList = some leading →
    Moves tags r t
      ⟨.literal isComment inner.line inner.name (body ++ leading) :: inner.before, outer, false⟩
  | text : ReadsMarkup r.opened → t.kind = .text → Moves tags r t (r.addText t.line t.value)
  | makes {n : Node} : ReadsMarkup r.opened → t.Makes tags n → ¬ t.EndsBody r.endTags →
    Moves tags r t ((r.trimAround t).addNode n)
  | opens {name : String} {markup : List Char} {kind : TagKind} {block : Block} :
    ReadsMarkup r.opened → t.IsTag name markup → tags.get? name = some kind →
    kind.start t.line name markup = .ok (.block block) → name ∉ r.endTags →
    Moves tags r t ((r.trimAround t).openBlock name t.line block)
  | ends {name : String} {markup : List Char} {inner : OpenBlock} {outer : List OpenBlock}
    {ending : BodyEnd} :
    ReadsMarkup r.opened → t.IsTag name markup → r.opened = inner :: outer →
    inner.block.Ends inner.line (r.trimAround t).nodes.reverse name markup ending →
    Moves tags r t (afterBody inner outer t.trimsRight ending)

section

variable {tags : TagTable} {o : Origin} {r r' : Reader} {t : Token}

theorem endTags_of_opened {inner : OpenBlock} {outer : List OpenBlock}
    (h : r.opened = inner :: outer) : r.endTags = inner.block.endTags := by
  unfold endTags
  rw [h]
  rfl

theorem not_mem_endTags_of_nil (h : r.opened = []) {name : String} : name ∉ r.endTags := by
  unfold endTags
  rw [h]
  exact List.not_mem_nil

theorem moves_of_startTag (hmarkup : ReadsMarkup r.opened) {name : String} {markup : List Char}
    (htag : t.IsTag name markup) (hends : name ∉ r.endTags)
    (h : startTag tags o (r.trimAround t) t.line name markup = .ok r') : Moves tags r t r' := by
  unfold startTag at h
  split at h
  · cases h
  · next kind hkind =>
    obtain ⟨start, hlocate, hr⟩ := exists_of_bind_eq_ok h
    have hstart := locate_eq_ok.mp hlocate
    cases start with
    | node n =>
      cases hr
      exact .makes hmarkup (.tag htag.kind ⟨htag, hkind, hstart⟩) (mt htag.endsBody_iff.mp hends)
    | block b =>
      cases hr
      exact .opens hmarkup htag hkind hstart hends

theorem moves_of_readTag (hmarkup : ReadsMarkup r.opened) {name : String} {markup : List Char}
    (htag : t.IsTag name markup)
    (h : readTag tags o (r.trimAround t) t.line name markup = .ok r') : Moves tags r t r' := by
  unfold readTag at h
  split at h
  · next hopened =>
    exact moves_of_startTag hmarkup htag (not_mem_endTags_of_nil hopened) h
  · next inner outer hopened =>
    split at h
    · next hend =>
      have hends := Block.end?_eq_none_iff.mp hend
      rw [← endTags_of_opened hopened] at hends
      exact moves_of_startTag hmarkup htag hends h
    · next x hend =>
      obtain ⟨ending, hlocate, hr⟩ := exists_of_bind_eq_ok h
      rw [locate_eq_ok.mp hlocate] at hend
      have hends := Block.ends_of_end?_eq hend
      cases ending <;> (cases hr; exact .ends hmarkup htag hopened hends)

theorem moves_of_readMarkup (hmarkup : ReadsMarkup r.opened)
    (h : r.readMarkup tags o t = .ok r') : Moves tags r t r' := by
  unfold readMarkup at h
  split at h
  · next hkind =>
    cases h
    exact .text hmarkup hkind
  · next hkind =>
    obtain ⟨e, hlocate, hr⟩ := exists_of_bind_eq_ok h
    cases hr
    refine .makes hmarkup (.output hkind (locate_eq_ok.mp hlocate)) ?_
    rintro ⟨name, markup, htag, -⟩
    cases hkind.symm.trans htag.kind
  · next hkind =>
    split at h
    · cases h
    · next name markup hsplit => exact moves_of_readTag hmarkup ⟨hkind, hsplit⟩ h

theorem moves_of_readLiteral {inner : OpenBlock} {outer : List OpenBlock} {isComment : Bool}
    {body : List Char} (hopened : r.opened = inner :: outer)
    (hblock : inner.block = .literal isComment body) :
    Moves tags r t (r.readLiteral inner outer isComment body t.value.toList) := by
  unfold readLiteral
  split
  · next hclosing => exact .inside hopened hblock hclosing
  · next leading hclosing => exact .closesLiteral hopened hblock hclosing

theorem readsMarkup_or_literal (opened : List OpenBlock) :
    ReadsMarkup opened ∨ ∃ inner outer isComment body, opened = inner :: outer ∧
      inner.block = .literal isComment body := by
  cases opened with
  | nil => exact .inl nofun
  | cons inner outer =>
    cases hblock : inner.block with
    | literal isComment body => exact .inr ⟨inner, outer, isComment, body, rfl, hblock⟩
    | _ =>
      refine .inl ?_
      rintro b ⟨⟩
      rw [hblock]
      rfl

theorem read_of_literal {inner : OpenBlock} {outer : List OpenBlock} {isComment : Bool}
    {body : List Char} (hopened : r.opened = inner :: outer)
    (hblock : inner.block = .literal isComment body) :
    r.read tags o t = .ok (r.readLiteral inner outer isComment body t.value.toList) := by
  unfold read
  rw [hopened]
  simp only [hblock]

theorem moves_of_read (h : r.read tags o t = .ok r') : Moves tags r t r' := by
  obtain hmarkup | ⟨inner, outer, isComment, body, hopened, hblock⟩ :=
    readsMarkup_or_literal r.opened
  · rw [read_of_readsMarkup hmarkup] at h
    exact moves_of_readMarkup hmarkup h
  · rw [read_of_literal hopened hblock] at h
    cases h
    exact moves_of_readLiteral hopened hblock

/-! ## Every move is made -/

theorem read_of_not_mem_endTags (hmarkup : ReadsMarkup r.opened) {name : String}
    {markup : List Char} (htag : t.IsTag name markup) (h : name ∉ r.endTags) :
    r.read tags o t = startTag tags o (r.trimAround t) t.line name markup := by
  rw [read_of_tag hmarkup htag]
  unfold readTag
  split
  · rfl
  · next inner outer hopened =>
    have hopened' : r.opened = inner :: outer := hopened
    rw [endTags_of_opened hopened'] at h
    rw [Block.end?_eq_none_iff.mpr h]

theorem Moves.read (h : Moves tags r t r') (o : Origin) : r.read tags o t = .ok r' := by
  cases h with
  | inside hopened hblock hclosing =>
    rw [read_of_literal hopened hblock, readLiteral, hclosing]
  | closesLiteral hopened hblock hclosing =>
    rw [read_of_literal hopened hblock, readLiteral, hclosing]
    rfl
  | text hmarkup hkind =>
    rw [read_of_readsMarkup hmarkup, readMarkup, hkind]
  | makes hmarkup hmakes hends =>
    cases hmakes with
    | output hkind hparse =>
      rw [read_of_readsMarkup hmarkup, readMarkup, hkind]
      simp only [hparse]
      rfl
    | tag hkind hstarts =>
      obtain ⟨htag, hget, hstart⟩ := hstarts
      rw [read_of_not_mem_endTags hmarkup htag (mt htag.endsBody_iff.mpr hends), startTag, hget]
      simp only [hstart]
      rfl
  | opens hmarkup htag hget hstart hends =>
    rw [read_of_not_mem_endTags hmarkup htag hends, startTag, hget]
    simp only [hstart]
    rfl
  | @ends name markup inner outer ending hmarkup htag hopened hends =>
    have htrim : (r.trimAround t).opened = inner :: outer := hopened
    rw [read_of_tag hmarkup htag, readTag, htrim]
    simp only [hends.end?_eq]
    cases ending <;> rfl

theorem Moves.unique {r₁ r₂ : Reader} (h₁ : Moves tags r t r₁) (h₂ : Moves tags r t r₂) :
    r₁ = r₂ := by
  have hread := h₁.read ⟨none, "", false⟩
  rw [h₂.read] at hread
  exact (Except.ok.inj hread).symm

end

end Reader

end Stencil
