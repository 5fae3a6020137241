import Stencil.Proofs.Template.Grammar

/-!
# The steps of a reader

What a reader does with one token outside of literal blocks, by what the token is.
-/

namespace Stencil

open Markup

namespace Reader

/-! ## Reading in steps -/

section

variable {tags : TagTable} {o : Origin} {r r' : Reader}

theorem readAll_append (ts us : List Token) :
    r.readAll tags o (ts ++ us) = r.readAll tags o ts >>= fun r' => r'.readAll tags o us := by
  induction ts generalizing r with
  | nil => rfl
  | cons t ts ih =>
    rw [List.cons_append, readAll, readAll, bind_assoc]
    exact bind_congr fun r' => ih

theorem readAll_append_of_ok {ts : List Token} (h : r.readAll tags o ts = .ok r')
    (us : List Token) : r.readAll tags o (ts ++ us) = r'.readAll tags o us := by
  rw [readAll_append, h]
  rfl

theorem readAll_singleton (t : Token) : r.readAll tags o [t] = r.read tags o t := by
  rw [readAll]
  exact bind_pure _

/-- The innermost block, if there is one, is no literal block. -/
def ReadsMarkup (opened : List OpenBlock) : Prop :=
  ∀ inner ∈ opened.head?, inner.block.isLiteral = false

theorem read_of_readsMarkup (h : ReadsMarkup r.opened) (t : Token) :
    r.read tags o t = r.readMarkup tags o t := by
  unfold read
  split
  · next inner outer hopened =>
    have hinner : inner.block.isLiteral = false := h inner (by rw [hopened]; rfl)
    split
    · next hblock => rw [hblock] at hinner; contradiction
    · rfl
  · rfl

theorem addText_eq (nodes : List Node) (opened : List OpenBlock) (trims : Bool) (t : Token) :
    addText ⟨nodes.reverse, opened, trims⟩ t.line t.value =
      ⟨(nodes ++ t.textNodes trims).reverse, opened, false⟩ := by
  unfold addText Token.textNodes
  simp only [List.reverse_append]
  generalize (if trims then Text.trimStart t.value.toList else t.value.toList) = cs
  split <;> rfl

theorem trimAround_eq (nodes : List Node) (opened : List OpenBlock) (trims : Bool) (t : Token) :
    trimAround ⟨nodes.reverse, opened, trims⟩ t =
      ⟨(t.trimBefore nodes).reverse, opened, t.trimsRight⟩ := by
  unfold trimAround Token.trimBefore
  split <;> simp

theorem read_of_tag (hopened : ReadsMarkup r.opened) {t : Token} {name : String}
    {markup : List Char} (h : t.IsTag name markup) :
    r.read tags o t = readTag tags o (r.trimAround t) t.line name markup := by
  rw [read_of_readsMarkup hopened]
  unfold readMarkup
  simp only [h.kind, h.split]

theorem read_of_isTag {nodes : List Node} {opened : List OpenBlock} {trims : Bool} {t : Token}
    {name : String} {markup : List Char} (hopened : ReadsMarkup opened) (h : t.IsTag name markup) :
    read tags o ⟨nodes.reverse, opened, trims⟩ t =
      readTag tags o ⟨(t.trimBefore nodes).reverse, opened, t.trimsRight⟩ t.line name markup := by
  rw [read_of_tag hopened h, trimAround_eq]

end

/-! ## Tags -/

/-- How a reader goes on at the start of a tag, with these nodes before it. -/
def afterStart (name : String) (line : Nat) (nodes : List Node) (opened : List OpenBlock)
    (trims : Bool) : TagStart → Reader
  | .node node => ⟨node :: nodes.reverse, opened, trims⟩
  | .block block => ⟨[], ⟨name, line, block, nodes.reverse⟩ :: opened, trims⟩

/-- How a reader goes on when the body of its innermost block has come to its end. -/
def afterBody (inner : OpenBlock) (outer : List OpenBlock) (trims : Bool) : BodyEnd → Reader
  | .closed node => ⟨node :: inner.before, outer, trims⟩
  | .continued block => ⟨[], { inner with block } :: outer, trims⟩

section

variable {o : Origin} {nodes : List Node} {opened : List OpenBlock} {trims : Bool} {line : Nat}
  {name : String} {markup : List Char}

theorem locate_eq_ok {α : Type} {x : Except (Failure SyntaxFault) α} {a : α} :
    o.locate line x = .ok a ↔ x = .ok a := mapError_eq_ok

theorem startTag_eq_ok {r : Reader} :
    startTag TagTable.default o ⟨nodes.reverse, opened, trims⟩ line name markup = .ok r ↔
      ∃ start, TagStart.Starts line name markup start ∧
        r = afterStart name line nodes opened trims start := by
  unfold startTag
  constructor
  · intro h
    split at h
    · cases h
    · next kind hkind =>
      obtain ⟨start, hlocate, hr⟩ := exists_of_bind_eq_ok h
      refine ⟨start, TagStart.starts_of_start_eq hkind (locate_eq_ok.mp hlocate), ?_⟩
      cases start <;> cases hr <;> rfl
  · rintro ⟨start, hstarts, rfl⟩
    obtain ⟨kind, hkind, hstart⟩ := hstarts.start_eq
    rw [hkind]
    simp only [hstart]
    cases start <;> rfl

theorem readTag_of_starts {start : TagStart} (h : TagStart.Starts line name markup start) :
    readTag TagTable.default o ⟨nodes.reverse, opened, trims⟩ line name markup =
      .ok (afterStart name line nodes opened trims start) := by
  have hstart : startTag TagTable.default o ⟨nodes.reverse, opened, trims⟩ line name markup =
      .ok (afterStart name line nodes opened trims start) := startTag_eq_ok.mpr ⟨start, h, rfl⟩
  unfold readTag
  cases opened with
  | nil => exact hstart
  | cons inner outer =>
    simp only
    rw [Block.end?_eq_none h.not_mem_endNames]
    exact hstart

theorem readTag_of_ends {inner : OpenBlock} {outer : List OpenBlock} {ending : BodyEnd}
    (h : inner.block.Ends inner.line nodes name markup ending) :
    readTag TagTable.default o ⟨nodes.reverse, inner :: outer, trims⟩ line name markup =
      .ok (afterBody inner outer trims ending) := by
  unfold readTag
  simp only [List.reverse_reverse, h.end?_eq]
  cases ending <;> rfl

theorem exists_of_readTag {r : Reader}
    (h : readTag TagTable.default o ⟨nodes.reverse, opened, trims⟩ line name markup = .ok r) :
    (∃ start, TagStart.Starts line name markup start ∧
      r = afterStart name line nodes opened trims start) ∨
    ∃ inner outer ending, opened = inner :: outer ∧
      inner.block.Ends inner.line nodes name markup ending ∧
      r = afterBody inner outer trims ending := by
  unfold readTag at h
  split at h
  · exact .inl (startTag_eq_ok.mp h)
  · next inner outer hopened =>
    simp only at hopened
    subst hopened
    split at h
    · exact .inl (startTag_eq_ok.mp h)
    · next x hend =>
      obtain ⟨ending, hlocate, hr⟩ := exists_of_bind_eq_ok h
      rw [locate_eq_ok.mp hlocate, List.reverse_reverse] at hend
      refine .inr ⟨inner, outer, ending, rfl, Block.ends_of_end?_eq hend, ?_⟩
      cases ending <;> cases hr <;> rfl

end

end Reader

end Stencil
