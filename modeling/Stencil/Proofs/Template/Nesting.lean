import Stencil.Proofs.Template.Bodies

/-!
# How blocks are nested

A token opens a block, ends a body of the innermost one, closes it, or leaves the blocks as they
are. So every open block has a token that opened it, and since then none of the blocks around it has
changed.
-/

namespace Stencil

open Markup

/-! ## Kinds of blocks -/

/-- What a block is, whichever of its bodies is open. -/
inductive BlockKind
  | conditional (isNegated : Bool)
  | loop (markup : LoopMarkup)
  | ifChanged
  | literal (isComment : Bool)

def Block.kind : Block → BlockKind
  | .branches isNegated _ _ => .conditional isNegated
  | .otherwise isNegated _ => .conditional isNegated
  | .loop markup => .loop markup
  | .loopOtherwise markup _ => .loop markup
  | .ifChanged => .ifChanged
  | .literal isComment _ => .literal isComment

/-- The token opens a block of this kind. -/
def Token.Opens (tags : TagTable) (t : Token) (kind : BlockKind) : Prop :=
  ∃ block, t.Starts tags (.block block) ∧ block.kind = kind

/-- The node is what a block of this kind becomes. -/
def Node.IsOf : BlockKind → Node → Prop
  | .conditional isNegated, .conditional _ isNegated' _ _ => isNegated' = isNegated
  | .loop markup, .loop _ head _ _ => markup.parse = .ok head
  | .ifChanged, .ifChanged .. => True
  | .literal false, .raw .. => True
  | .literal true, .comment .. => True
  | _, _ => False

/-- The tag that closes a block of this kind under the name it was opened with. -/
def BlockKind.closer (name : String) : BlockKind → String
  | .conditional isNegated => conditionalEnd isNegated
  | .loop _ => "endfor"
  | .ifChanged => "endifchanged"
  | .literal _ => "end" ++ name

theorem Block.Ends.kind {line : Nat} {body : List Node} {block : Block} {tag : String}
    {markup : List Char} {ending : BodyEnd} (h : block.Ends line body tag markup ending)
    (name : String) :
    match ending with
    | .closed n => n.IsOf block.kind ∧ tag = block.kind.closer name
    | .continued next => next.kind = block.kind ∧ (tag = "else" ∨ tag = "elsif") := by
  cases h with
  | lastBranch => exact ⟨rfl, rfl⟩
  | elseBranch => exact ⟨rfl, .inl rfl⟩
  | elsifBranch => exact ⟨rfl, .inr rfl⟩
  | otherwise => exact ⟨rfl, rfl⟩
  | loop hparse => exact ⟨hparse, rfl⟩
  | loopElse => exact ⟨rfl, .inl rfl⟩
  | loopOtherwise hparse => exact ⟨hparse, rfl⟩
  | ifChanged => exact ⟨trivial, rfl⟩

namespace Reader

/-! ## One token -/

/-- What a token does to the open blocks. -/
inductive Shifts (tags : TagTable) (r : Reader) (t : Token) (r' : Reader) : Prop
  | stays : r'.opened = r.opened → Shifts tags r t r'
  | opens {b : OpenBlock} {markup : List Char} : r'.opened = b :: r.opened → b.line = t.line →
    t.IsTag b.name markup → t.Opens tags b.block.kind → Shifts tags r t r'
  | continues {inner : OpenBlock} {outer : List OpenBlock} {block : Block} :
    r.opened = inner :: outer → r'.opened = { inner with block } :: outer →
    block.kind = inner.block.kind → Shifts tags r t r'
  | closes {inner : OpenBlock} {outer : List OpenBlock} : r.opened = inner :: outer →
    r'.opened = outer → Shifts tags r t r'

section

variable {tags : TagTable} {o : Origin} {r r' : Reader} {t : Token}

theorem Moves.shifts (h : Moves tags r t r') : Shifts tags r t r' := by
  cases h with
  | inside hopened hblock hclosing =>
    refine .continues hopened rfl ?_
    rw [hblock]
    rfl
  | closesLiteral hopened hblock hclosing => exact .closes hopened rfl
  | text => exact .stays rfl
  | makes => exact .stays rfl
  | opens hmarkup htag hkind hstart => exact .opens rfl rfl htag ⟨_, ⟨htag, hkind, hstart⟩, rfl⟩
  | @ends name markup inner outer ending hmarkup htag hopened hends =>
    have hkind := hends.kind inner.name
    cases ending with
    | closed n => exact .closes hopened rfl
    | continued next => exact .continues hopened rfl hkind.1

/-! ## Tokens in a row -/

/-- Reading these tokens, never fewer than `depth` blocks are open. -/
inductive Within (tags : TagTable) (depth : Nat) : Reader → List Token → Reader → Prop
  | nil {r : Reader} : depth ≤ r.opened.length → Within tags depth r [] r
  | cons {r r₁ r' : Reader} {t : Token} {ts : List Token} : depth ≤ r.opened.length →
    Moves tags r t r₁ → Within tags depth r₁ ts r' → Within tags depth r (t :: ts) r'

theorem Within.readAll {depth : Nat} {ts : List Token} (h : Within tags depth r ts r')
    (o : Origin) : r.readAll tags o ts = .ok r' := by
  induction h with
  | nil => rfl
  | cons hdepth hmoves hrest ih =>
    rw [Reader.readAll, except_bind_of_ok (hmoves.read o)]
    exact ih

theorem Within.le_length {depth : Nat} {ts : List Token} (h : Within tags depth r ts r') :
    depth ≤ r.opened.length := by
  cases h with
  | nil hdepth => exact hdepth
  | cons hdepth => exact hdepth

theorem Within.snoc {depth : Nat} {ts : List Token} {r₁ : Reader} (h : Within tags depth r ts r₁)
    (hmoves : Moves tags r₁ t r') (hdepth : depth ≤ r'.opened.length) :
    Within tags depth r (ts ++ [t]) r' := by
  induction h with
  | nil hstart => exact .cons hstart hmoves (.nil hdepth)
  | cons hstart hfirst hrest ih => exact .cons hstart hfirst (ih hmoves)

/-- A block that stays open stays what it is, up to the nodes that are found in it. -/
theorem Within.exists_opened {outer : List OpenBlock} {ts : List Token}
    (h : Within tags (outer.length + 1) r ts r') {front : List OpenBlock} {b : OpenBlock}
    (hopened : r.opened = front ++ b :: outer) :
    ∃ front' block, r'.opened = front' ++ { b with block } :: outer ∧
      block.kind = b.block.kind := by
  generalize hdepth : outer.length + 1 = depth at h
  induction h generalizing front b with
  | nil => exact ⟨front, b.block, hopened, rfl⟩
  | @cons r r₁ r' t ts hstart hmoves hrest ih =>
    cases hmoves.shifts with
    | stays hsame => exact ih (hsame.trans hopened)
    | @opens new markup hnew =>
      have hopened₁ : r₁.opened = (new :: front) ++ b :: outer := by
        rw [hnew, hopened, List.cons_append]
      exact ih hopened₁
    | @continues inner around block hold hnew hkind =>
      rw [hold] at hopened
      cases front with
      | nil =>
        cases hopened
        have hopened₁ : r₁.opened = [] ++ { b with block } :: outer := hnew
        obtain ⟨front', block', hopened', hkind'⟩ := ih hopened₁
        exact ⟨front', block', hopened', hkind'.trans hkind⟩
      | cons _ front =>
        cases hopened
        have hopened₁ : r₁.opened = ({ inner with block } :: front) ++ b :: outer := hnew
        exact ih hopened₁
    | @closes inner around hold hnew =>
      rw [hold] at hopened
      cases front with
      | nil =>
        cases hopened
        have hle := hrest.le_length
        rw [hnew] at hle
        omega
      | cons _ front =>
        cases hopened
        exact ih hnew

/--
The token `u` opened the block that is now `b`, with the blocks of `outer` around it, and it has not
been closed since.
-/
inductive OpenedBy (tags : TagTable) (o : Origin) (ts : List Token) (r : Reader) (b : OpenBlock)
    (outer : List OpenBlock) (u : Token) : Prop
  | mk {before inside : List Token} {r₀ r₁ : Reader} {markup : List Char} :
    ts = before ++ u :: inside → Reader.start.readAll tags o before = .ok r₀ →
    r₀.read tags o u = .ok r₁ → r₀.opened = outer → r₁.opened.length = outer.length + 1 →
    Within tags (outer.length + 1) r₁ inside r →
    u.line = b.line → u.IsTag b.name markup → u.Opens tags b.block.kind →
    OpenedBy tags o ts r b outer u

/-- Every open block was opened by a token. -/
def Traced (tags : TagTable) (o : Origin) (ts : List Token) (r : Reader) : Prop :=
  ∀ front b outer, r.opened = front ++ b :: outer → ∃ u, OpenedBy tags o ts r b outer u

theorem OpenedBy.read {ts : List Token} {b : OpenBlock} {outer : List OpenBlock} {u : Token}
    (h : OpenedBy tags o ts r b outer u) (hread : r.read tags o t = .ok r')
    (hdepth : outer.length + 1 ≤ r'.opened.length) {b' : OpenBlock} (hline : b'.line = b.line)
    (hname : b'.name = b.name) (hkind : b'.block.kind = b.block.kind) :
    OpenedBy tags o (ts ++ [t]) r' b' outer u := by
  obtain ⟨hts, hbefore, hfirst, houter, hlength, hwithin, hu, htag, hopens⟩ := h
  have hwithin' := hwithin.snoc (moves_of_read hread) hdepth
  refine .mk ?_ hbefore hfirst houter hlength hwithin' (hu.trans hline.symm) (hname ▸ htag)
    (hkind ▸ hopens)
  rw [hts]
  simp

theorem Traced.read {ts : List Token} (hts : Reader.start.readAll tags o ts = .ok r)
    (h : Traced tags o ts r) (hread : r.read tags o t = .ok r') :
    Traced tags o (ts ++ [t]) r' := by
  intro front b outer hopened
  have hdepth : outer.length + 1 ≤ r'.opened.length := by
    rw [hopened]
    simp
  cases (moves_of_read hread).shifts with
  | stays hsame =>
    obtain ⟨u, hu⟩ := h front b outer (hsame ▸ hopened)
    exact ⟨u, hu.read hread hdepth rfl rfl rfl⟩
  | @opens new markup hnew hline htag hopens =>
    rw [hnew] at hopened
    cases front with
    | nil =>
      cases hopened
      have hlength : r'.opened.length = r.opened.length + 1 := by rw [hnew, List.length_cons]
      exact ⟨t, .mk rfl hts hread rfl hlength (.nil hdepth) hline.symm htag hopens⟩
    | cons first front =>
      obtain ⟨u, hu⟩ := h front b outer (List.cons.inj hopened).2
      exact ⟨u, hu.read hread hdepth rfl rfl rfl⟩
  | @continues inner around block hold hnew hkind =>
    rw [hnew] at hopened
    cases front with
    | nil =>
      cases hopened
      obtain ⟨u, hu⟩ := h [] inner outer hold
      exact ⟨u, hu.read hread hdepth rfl rfl hkind⟩
    | cons first front =>
      have haround := (List.cons.inj hopened).2
      obtain ⟨u, hu⟩ := h (inner :: front) b outer (hold.trans (congrArg (inner :: ·) haround))
      exact ⟨u, hu.read hread hdepth rfl rfl rfl⟩
  | @closes inner around hold hnew =>
    have haround := hnew.symm.trans hopened
    obtain ⟨u, hu⟩ := h (inner :: front) b outer (hold.trans (congrArg (inner :: ·) haround))
    exact ⟨u, hu.read hread hdepth rfl rfl rfl⟩

theorem Traced.readAll {ts us : List Token} (hts : Reader.start.readAll tags o ts = .ok r)
    (h : Traced tags o ts r) (hread : r.readAll tags o us = .ok r') :
    Traced tags o (ts ++ us) r' := by
  induction us generalizing r ts with
  | nil =>
    cases hread
    rwa [List.append_nil]
  | cons t us ih =>
    obtain ⟨r₁, hfirst, hrest⟩ := exists_of_bind_eq_ok hread
    have hts' : Reader.start.readAll tags o (ts ++ [t]) = .ok r₁ := by
      rw [readAll_append_of_ok hts, readAll_singleton, hfirst]
    rw [List.append_cons]
    exact ih hts' (h.read hts hfirst) hrest

theorem traced_of_readAll {ts : List Token} (h : Reader.start.readAll tags o ts = .ok r) :
    Traced tags o ts r := by
  have hstart : Traced tags o [] Reader.start := fun front b outer hopened => by
    cases front <;> cases hopened
  exact hstart.readAll rfl h

end

end Reader

end Stencil
