import Stencil.Proofs.Template.Blame
import Stencil.Proofs.Token.Appended
import Stencil.Proofs.Token.Dashes

/-!
# Which tag closes a block

The hint of a block that is never closed names the tag that is to close it. A literal block closes
there, whatever name it was opened with. Any other block only closes there if it was opened with the
name that it has in the default table.
-/

namespace Stencil

open Markup

/-! ## Names -/

/-- The tag that is to close a block, by the name that the block was opened with. -/
def endTag (name : String) : String := "\x7b% end" ++ name ++ " %\x7d"

/-- A block of this kind that was opened with this name has the end tag of that name. -/
def BlockKind.ClosesAs (name : String) : BlockKind → Prop
  | .conditional isNegated => name = conditionalStart isNegated
  | .loop _ => name = "for"
  | .ifChanged => name = "ifchanged"
  | .literal _ => True

/-- The expressions of a loop can be read. They are not before the loop is closed. -/
def BlockKind.IsValid : BlockKind → Prop
  | .loop markup => ∃ head, markup.parse = .ok head
  | _ => True

def BlockKind.isLiteral : BlockKind → Bool
  | .literal _ => true
  | _ => false

theorem BlockKind.isLiteral_of_not_closesAs {name : String} (kind : BlockKind)
    (h : ¬ kind.ClosesAs name) : kind.isLiteral = false := by
  cases kind with
  | literal => exact absurd trivial h
  | _ => rfl

section

variable {name : String}

theorem end_append_inj {name' : String} : "end" ++ name' = "end" ++ name ↔ name = name' := by
  constructor
  · intro h
    have hlist := congrArg String.toList h
    rw [String.toList_append, String.toList_append, List.append_cancel_left_eq] at hlist
    exact String.ext hlist.symm
  · rintro rfl
    rfl

theorem BlockKind.closer_eq_iff (kind : BlockKind) :
    kind.closer name = "end" ++ name ↔ kind.ClosesAs name := by
  have hend : ∀ isNegated, conditionalEnd isNegated = "end" ++ conditionalStart isNegated := by
    intro isNegated
    cases isNegated <;> rfl
  have hfor : "endfor" = "end" ++ "for" := rfl
  have hchanged : "endifchanged" = "end" ++ "ifchanged" := rfl
  cases kind with
  | conditional isNegated =>
    rw [closer, hend]
    exact end_append_inj
  | loop =>
    rw [closer, hfor]
    exact end_append_inj
  | ifChanged =>
    rw [closer, hchanged]
    exact end_append_inj
  | literal => exact ⟨fun _ => trivial, fun _ => rfl⟩

theorem suggestion_unterminated : (SyntaxFault.unterminated name).suggestion =
    some ("Add " ++ endTag name ++ " to close the block") := by
  apply congrArg some
  apply String.ext
  simp [endTag]

theorem toList_endTag : (endTag name).toList = bareTag ("end" ++ name).toList := by
  simp [endTag, bareTag]

theorem Token.IsTag.isWord {t : Token} {markup : List Char} (h : t.IsTag name markup) :
    IsWord name.toList := by
  obtain ⟨-, hsplit⟩ := h
  unfold splitTag? at hsplit
  simp only at hsplit
  split_ifs at hsplit with hne
  cases hsplit
  rw [String.toList_ofList]
  exact ⟨hne, fun c hc => List.mem_takeWhile_imp hc⟩

theorem IsWord.end_append (h : IsWord name.toList) : IsWord ("end" ++ name).toList := by
  rw [String.toList_append]
  refine ⟨by simp, fun c hc => ?_⟩
  rcases List.mem_append.mp hc with hend | hname
  · have hword : "end".toList.all Text.isWordChar = true := by decide +kernel
    exact List.all_eq_true.mp hword c hend
  · exact h.word c hname

theorem Token.isTag_of_bareTag {t : Token} (hkind : t.kind = .tag) (hname : IsWord name.toList)
    (hvalue : t.value.toList = bareTag name.toList) : t.IsTag name [] := by
  refine ⟨hkind, ?_⟩
  have hmarkup : t.markup = name.toList := by
    rw [markup_of_blanks (hkind ▸ nofun) hvalue, hname.trim_eq]
  have hall : name.toList.takeWhile Text.isWordChar = name.toList :=
    List.takeWhile_eq_self_iff.mpr hname.word
  have hrest : name.toList.dropWhile Text.isWordChar = [] :=
    List.dropWhile_eq_nil_iff.mpr hname.word
  rw [hmarkup]
  unfold splitTag?
  simp only [hall, hrest, if_neg hname.ne_nil, String.ofList_toList]
  rfl

end

namespace Reader

variable {tags : TagTable} {o : Origin} {r r' : Reader} {t u : Token} {ts us : List Token}
  {name : String} {markup : List Char} {kind : BlockKind}

/-! ## The body of a block -/

/--
What stands between a tag that opens a block and the end of the block: nothing in it closes the
block, and every block that is opened in it is closed in it.
-/
def IsBody (tags : TagTable) (t : Token) (us : List Token) : Prop :=
  ∃ r r', Moves tags start t r ∧ Within tags 1 r us r' ∧ r'.opened.length = 1

theorem exists_moves_of_opens (htag : t.IsTag name markup) (hopens : t.Opens tags kind) :
    ∃ block, block.kind = kind ∧
      Moves tags start t ⟨[], [⟨name, t.line, block, []⟩], t.trimsRight⟩ := by
  obtain ⟨block, ⟨htag', hkind, hstart⟩, hblock⟩ := hopens
  cases htag.split.symm.trans htag'.split
  have hmarkup : ReadsMarkup start.opened := by
    rintro b ⟨⟩
  have hmoves := Moves.opens hmarkup htag hkind hstart (not_mem_endTags_of_nil rfl)
  have htrim : start.trimAround t = ⟨[], [], t.trimsRight⟩ := by
    unfold trimAround
    split <;> rfl
  rw [htrim] at hmoves
  exact ⟨block, hblock, hmoves⟩

theorem IsBody.exists_readAll (h : IsBody tags t us) (htag : t.IsTag name markup)
    (hopens : t.Opens tags kind) (o : Origin) :
    ∃ r block, start.readAll tags o (t :: us) = .ok r ∧
      r.opened = [⟨name, t.line, block, []⟩] ∧ block.kind = kind := by
  obtain ⟨r, r', hmoves, hwithin, hlength⟩ := h
  obtain ⟨block, hblock, hstart⟩ := exists_moves_of_opens htag hopens
  obtain rfl := hstart.unique hmoves
  have hwithin' : Within tags (([] : List OpenBlock).length + 1) _ us r' := hwithin
  obtain ⟨front, block', hopened, hkind⟩ :=
    hwithin'.exists_opened (show [_] = [] ++ _ :: [] from rfl)
  refine ⟨r', block', ?_, ?_, hkind.trans hblock⟩
  · rw [readAll, except_bind_of_ok (hmoves.read o), hwithin.readAll]
  · cases front with
    | nil => exact hopened
    | cons b front =>
      rw [hopened] at hlength
      simp at hlength

end Reader

section

variable {tags : TagTable} {o : Origin} {t u : Token} {us : List Token} {name : String}
  {markup : List Char} {kind : BlockKind}

theorem Node.ofTokens_of_isBody (h : Reader.IsBody tags t us) (htag : t.IsTag name markup)
    (hopens : t.Opens tags kind) :
    Node.ofTokens tags o (t :: us) =
      .error (.malformed (o.error t.line (.unterminated name))) := by
  obtain ⟨r, block, hread, hopened, -⟩ := h.exists_readAll htag hopens o
  unfold Node.ofTokens
  rw [except_bind_of_ok hread, Reader.finish, hopened]

/-! ## The end tag -/

theorem Block.exists_ends {block : Block} (hliteral : block.kind.isLiteral = false)
    (hvalid : block.kind.IsValid) (hcloses : block.kind.ClosesAs name) (line : Nat)
    (body : List Node) : ∃ n, block.Ends line body ("end" ++ name) [] (.closed n) := by
  rw [← (BlockKind.closer_eq_iff block.kind).mpr hcloses]
  cases block with
  | branches => exact ⟨_, .lastBranch⟩
  | otherwise => exact ⟨_, .otherwise⟩
  | loop =>
    obtain ⟨head, hparse⟩ := hvalid
    exact ⟨_, .loop hparse⟩
  | loopOtherwise =>
    obtain ⟨head, hparse⟩ := hvalid
    exact ⟨_, .loopOtherwise hparse⟩
  | ifChanged => exact ⟨_, .ifChanged⟩
  | literal => cases hliteral

theorem Block.not_mem_endTags {block : Block} (hcloses : ¬ block.kind.ClosesAs name) :
    "end" ++ name ∉ block.endTags := by
  have hcloser : "end" ++ name ≠ block.kind.closer name := fun h =>
    hcloses ((BlockKind.closer_eq_iff block.kind).mp h.symm)
  have hother : "end" ++ name ≠ "else" ∧ "end" ++ name ≠ "elsif" := by
    constructor <;> intro h <;> simpa using congrArg String.toList h
  obtain ⟨helse, helsif⟩ := hother
  cases block with
  | literal => exact List.not_mem_nil
  | _ => simpa [endTags, Block.kind, BlockKind.closer, helse, helsif] using hcloser

theorem OpenBlock.readsMarkup {inner : OpenBlock} (h : inner.block.kind.isLiteral = false)
    (outer : List OpenBlock) : Reader.ReadsMarkup (inner :: outer) := by
  rintro b ⟨⟩
  cases hblock : inner.block with
  | literal =>
    rw [hblock] at h
    cases h
  | _ => rfl

theorem Node.ofTokens_of_closes (h : Reader.IsBody tags t us) (htag : t.IsTag name markup)
    (hopens : t.Opens tags kind) (hliteral : kind.isLiteral = false) (hvalid : kind.IsValid)
    (hcloses : kind.ClosesAs name) (hu : u.IsTag ("end" ++ name) []) :
    ∃ n, n.IsOf kind ∧ Node.ofTokens tags o (t :: (us ++ [u])) = .ok [n] := by
  obtain ⟨r, block, hread, hopened, rfl⟩ := h.exists_readAll htag hopens o
  obtain ⟨n, hends⟩ := block.exists_ends hliteral hvalid hcloses t.line
    (r.trimAround u).nodes.reverse
  have hmarkup : Reader.ReadsMarkup r.opened := by
    rw [hopened]
    exact OpenBlock.readsMarkup hliteral []
  have hlast : Reader.Moves tags r u _ := .ends hmarkup hu hopened hends
  refine ⟨n, (hends.kind name).1, ?_⟩
  unfold Node.ofTokens
  rw [← List.cons_append, Reader.readAll_append_of_ok hread, Reader.readAll_singleton,
    hlast.read]
  rfl

/-- A tag with nothing after its name has no number that could be too long. -/
theorem TagKind.malformed_of_start_nil {kind : TagKind} {line : Nat} {failure : Failure SyntaxFault}
    (h : kind.start line name [] = .error failure) : ∃ fault, failure = .malformed fault := by
  have hnothing : IsWrittenIn [⟨.text, "", 0⟩] [] := ⟨_, List.mem_cons_self, List.nil_infix⟩
  have hfails := (kind.readsIn_start line name hnothing).of_error h
  cases hfails with
  | fault => exact ⟨_, rfl⟩
  | number hdigits _ hwritten =>
    obtain ⟨t, ht, hpart⟩ := hwritten
    obtain rfl := List.mem_singleton.mp ht
    exact absurd (List.infix_nil.mp hpart) hdigits.1

theorem Node.ofTokens_of_not_closes (h : Reader.IsBody tags t us) (htag : t.IsTag name markup)
    (hopens : t.Opens tags kind) (hcloses : ¬ kind.ClosesAs name)
    (hu : u.IsTag ("end" ++ name) []) :
    ∃ e, Node.ofTokens tags o (t :: (us ++ [u])) = .error (.malformed e) ∧
      (tags.get? ("end" ++ name) = none → e = o.error u.line (.unexpectedTag ("end" ++ name))) := by
  obtain ⟨r, block, hread, hopened, rfl⟩ := h.exists_readAll htag hopens o
  have hliteral := block.kind.isLiteral_of_not_closesAs hcloses
  have hmarkup : Reader.ReadsMarkup r.opened := by
    rw [hopened]
    exact OpenBlock.readsMarkup hliteral []
  have hends : "end" ++ name ∉ r.endTags := by
    rw [Reader.endTags_of_opened hopened]
    exact Block.not_mem_endTags hcloses
  have htrim : r.trimAround u =
      ⟨(r.trimAround u).nodes, [⟨name, t.line, block, []⟩], u.trimsRight⟩ := by
    rw [← hopened]
    rfl
  unfold Node.ofTokens
  rw [← List.cons_append, Reader.readAll_append_of_ok hread, Reader.readAll_singleton,
    Reader.read_of_not_mem_endTags hmarkup hu hends, htrim]
  unfold Reader.startTag
  cases hget : tags.get? ("end" ++ name) with
  | none =>
    have hunknown : Reader.unknownTag tags ("end" ++ name) = .unexpectedTag ("end" ++ name) :=
      if_pos (by simp [String.toList_append])
    simp only [hunknown]
    exact ⟨_, rfl, fun _ => rfl⟩
  | some kind =>
    simp only
    cases hstart : kind.start u.line ("end" ++ name) [] with
    | error failure =>
      obtain ⟨fault, rfl⟩ := TagKind.malformed_of_start_nil hstart
      exact ⟨_, rfl, nofun⟩
    | ok start => cases start <;> exact ⟨_, rfl, nofun⟩

/-! ## Literal blocks -/

theorem Reader.closing?_of_within {r r' : Reader} (h : Within tags 1 r us r') {line : Nat}
    {isComment : Bool} {body : List Char} {before : List Node}
    (hopened : r.opened = [⟨name, line, .literal isComment body, before⟩]) :
    ∀ v ∈ us, Literal.closing? name v.value.toList = none := by
  induction h generalizing body with
  | nil => nofun
  | @cons r r₁ r' v vs hdepth hmoves hrest ih =>
    have hle := hrest.le_length
    cases hclosing : Literal.closing? name v.value.toList with
    | some leading =>
      obtain rfl := hmoves.unique (.closesLiteral hopened rfl hclosing)
      cases hle
    | none =>
      obtain rfl := hmoves.unique (.inside hopened rfl hclosing)
      exact List.forall_mem_cons.mpr ⟨hclosing, ih rfl⟩

theorem Reader.IsBody.closing?_eq_none (h : IsBody tags t us) (htag : t.IsTag name markup)
    {isComment : Bool} (hopens : t.Opens tags (.literal isComment)) :
    ∀ v ∈ us, Literal.closing? name v.value.toList = none := by
  obtain ⟨r, r', hmoves, hwithin, -⟩ := h
  obtain ⟨block, hblock, hstart⟩ := exists_moves_of_opens htag hopens
  obtain rfl := hstart.unique hmoves
  cases block with
  | literal => exact closing?_of_within hwithin rfl
  | _ => cases hblock

theorem Node.ofTokens_of_literal {isComment : Bool} (htag : t.IsTag name markup)
    (hopens : t.Opens tags (.literal isComment))
    (hbody : ∀ v ∈ us, Literal.closing? name v.value.toList = none) {leading : List Char}
    (hu : Literal.closing? name u.value.toList = some leading) :
    ∃ n : Node, n.IsOf (.literal isComment) ∧
      Node.ofTokens tags o (t :: (us ++ [u])) = .ok [n] := by
  obtain ⟨block, hblock, hmoves⟩ := Reader.exists_moves_of_opens htag hopens
  cases block with
  | literal isComment' body =>
    cases hblock
    refine ⟨.literal isComment t.line name (body ++ (Literal.text us ++ leading)), ?_, ?_⟩
    · cases isComment <;> trivial
    · unfold Node.ofTokens
      rw [Reader.readAll, except_bind_of_ok (hmoves.read o), Reader.readAll_literal,
        Literal.scan?_append hbody, Literal.scan?_of_closing hu]
      rfl
  | _ => cases hblock

end

/-! ## The end tag after a source -/

theorem Token.isTag_endTag {name : String} (hname : IsWord name.toList) (line : Nat) :
    (⟨.tag, endTag name, line⟩ : Token).IsTag ("end" ++ name) [] :=
  isTag_of_bareTag rfl hname.end_append toList_endTag

theorem Token.all_append_endTag {source name : String} (hname : IsWord name.toList)
    (hclosed : ¬ LeavesTagOpen (pieces source.toList)) :
    ∃ line, Token.all (source ++ endTag name) =
      Token.all source ++ [⟨.tag, endTag name, line⟩] := by
  obtain ⟨ps, last, hcut⟩ := exists_cutsBefore hname.end_append source.toList
  obtain ⟨rfl, rfl⟩ := hcut.closed hclosed
  refine ⟨1 + (flatten (pieces source.toList)).count '\n', ?_⟩
  unfold Token.all
  rw [String.toList_append, toList_endTag, hcut.pieces, number_append, List.nil_append,
    ← toList_endTag]
  simp only [number, String.ofList_toList]

/-- In a literal block a tag may be open at the end of the body: it is part of the body. -/
theorem Token.all_append_endTag_of_literal {source name : String} (hname : IsWord name.toList)
    {t : Token} {us : List Token} (hall : Token.all source = t :: us) (hkind : t.kind ≠ .text)
    (hbody : ∀ v ∈ us, Literal.closing? name v.value.toList = none) :
    ∃ vs u leading, Token.all (source ++ endTag name) = t :: (vs ++ [u]) ∧
      (∀ v ∈ vs, Literal.closing? name v.value.toList = none) ∧
      Literal.closing? name u.value.toList = some leading := by
  obtain ⟨after, hmarker, hline, rfl⟩ := exists_marker_of_all hall hkind
  obtain ⟨ps, last, hcut⟩ := exists_cutsBefore hname.end_append after
  have hpieces : pieces (source ++ endTag name).toList = (t.kind, t.value.toList) ::
      (ps ++ [(.tag, last ++ bareTag ("end" ++ name).toList)]) := by
    rw [String.toList_append, toList_endTag, pieces_append_of_marker hmarker, hcut.pieces]
  have hsplit : Token.all (source ++ endTag name) = t ::
      (number (1 + t.value.toList.count '\n') ps ++ [⟨.tag,
        String.ofList (last ++ bareTag ("end" ++ name).toList),
        1 + t.value.toList.count '\n' + (flatten ps).count '\n'⟩]) := by
    unfold Token.all
    rw [hpieces, number, number_append, String.ofList_toList, ← hline]
    rfl
  refine ⟨_, _, last, hsplit, fun v hv => ?_, ?_⟩
  · by_cases htext : v.kind = .text
    · have hmem : v ∈ Token.all (source ++ endTag name) := by
        rw [hsplit]
        exact List.mem_cons_of_mem t (List.mem_append_left _ hv)
      exact Literal.closing?_of_text hmem htext name
    · obtain ⟨w, hw, hvalue⟩ := exists_mem_number (1 + t.value.toList.count '\n')
        (hcut.markers _ (mem_of_mem_number hv) htext)
      have hclosing := hbody w hw
      rw [hvalue] at hclosing
      exact hclosing
  · rw [String.toList_ofList]
    exact Literal.closing?_bareTag hname.end_append last

/-! ## Sources that leave a block open -/

namespace Origin

/-- A source opens a block with this token and this name, and stops before the block ends. -/
structure LeavesOpen (o : Origin) (tags : TagTable) (t : Token) (name : String) (kind : BlockKind) :
    Prop where
  opens : t.Opens tags kind
  valid : kind.IsValid
  named : ∃ markup, t.IsTag name markup
  body : ∃ us, Token.all o.source = t :: us ∧ Reader.IsBody tags t us
  closed : kind.isLiteral = false → ¬ Token.LeavesTagOpen (Token.pieces o.source.toList)

/-- The source with the end tag after it that the name asks for. -/
def ended (o : Origin) (name : String) : Origin := { o with source := o.source ++ endTag name }

/-- What the hint of the error is worth, for a source that leaves a block open. -/
structure FollowsHint (o : Origin) (tags : TagTable) (file : Option String) (line : Nat)
    (name : String) (kind : BlockKind) : Prop where
  unclosed : Template.parse tags o.source o.name file o.isPartial =
    .error (.malformed (o.error line (.unterminated name)))
  hint : (SyntaxFault.unterminated name).suggestion =
    some ("Add " ++ endTag name ++ " to close the block")
  closes : kind.ClosesAs name → ∃ n : Node, n.IsOf kind ∧
    Template.parse tags (o.ended name).source o.name file o.isPartial =
      .ok ⟨[n], o.name, file, o.isPartial, (o.ended name).source⟩
  fails : ¬ kind.ClosesAs name → ∃ e,
    Template.parse tags (o.ended name).source o.name file o.isPartial = .error (.malformed e) ∧
      (tags.get? ("end" ++ name) = none → e.fault = .unexpectedTag ("end" ++ name))

section

variable {o : Origin} {tags : TagTable} {t : Token} {name : String} {kind : BlockKind}

theorem LeavesOpen.ofTokens_eq (h : o.LeavesOpen tags t name kind) :
    Node.ofTokens tags o (Token.all o.source) =
      .error (.malformed (o.error t.line (.unterminated name))) := by
  obtain ⟨markup, htag⟩ := h.named
  obtain ⟨us, hall, hbody⟩ := h.body
  rw [hall]
  exact Node.ofTokens_of_isBody hbody htag h.opens

theorem LeavesOpen.exists_node (h : o.LeavesOpen tags t name kind) (hcloses : kind.ClosesAs name) :
    ∃ n : Node, n.IsOf kind ∧
      Node.ofTokens tags (o.ended name) (Token.all (o.ended name).source) = .ok [n] := by
  obtain ⟨hopens, hvalid, ⟨markup, htag⟩, ⟨us, hall, hbody⟩, hclosed⟩ := h
  have hname := htag.isWord
  cases hliteral : kind.isLiteral with
  | false =>
    obtain ⟨line, htokens⟩ := Token.all_append_endTag hname (hclosed hliteral)
    rw [ended, htokens, hall]
    exact Node.ofTokens_of_closes hbody htag hopens hliteral hvalid hcloses
      (Token.isTag_endTag hname line)
  | true =>
    cases kind with
    | literal isComment =>
      have hnone := hbody.closing?_eq_none htag hopens
      obtain ⟨vs, u, leading, htokens, hvs, hu⟩ :=
        Token.all_append_endTag_of_literal hname hall htag.kind_ne hnone
      rw [ended, htokens]
      exact Node.ofTokens_of_literal htag hopens hvs hu
    | _ => cases hliteral

theorem LeavesOpen.exists_error (h : o.LeavesOpen tags t name kind)
    (hcloses : ¬ kind.ClosesAs name) :
    ∃ e, Node.ofTokens tags (o.ended name) (Token.all (o.ended name).source) =
        .error (.malformed e) ∧
      (tags.get? ("end" ++ name) = none → e.fault = .unexpectedTag ("end" ++ name)) := by
  obtain ⟨hopens, -, ⟨markup, htag⟩, ⟨us, hall, hbody⟩, hclosed⟩ := h
  have hname := htag.isWord
  obtain ⟨line, htokens⟩ :=
    Token.all_append_endTag hname (hclosed (kind.isLiteral_of_not_closesAs hcloses))
  obtain ⟨e, herror, hfault⟩ := Node.ofTokens_of_not_closes hbody htag
    hopens hcloses (Token.isTag_endTag hname line)
  refine ⟨e, ?_, fun hget => ?_⟩
  · rw [ended, htokens, hall]
    exact herror
  · rw [hfault hget]
    rfl

end

end Origin

theorem Template.parse_eq (tags : TagTable) (o : Origin) (file : Option String) :
    Template.parse tags o.source o.name file o.isPartial =
      (Node.ofTokens tags o (Token.all o.source)).map fun nodes =>
        ⟨nodes, o.name, file, o.isPartial, o.source⟩ := by
  unfold Template.parse
  cases Node.ofTokens tags o (Token.all o.source) <;> rfl

/--
A source opens a block and stops before the block ends. The hint of the error asks for the end tag
of the name that the block was opened with. With that tag the source is one node, if the block is a
literal block, or has the name of its kind in the default table; else it is no template.
-/
theorem Template.hint_closes_block {o : Origin} {tags : TagTable} {t : Token} {name : String}
    {kind : BlockKind} (h : o.LeavesOpen tags t name kind) (file : Option String) :
    o.FollowsHint tags file t.line name kind := by
  refine ⟨?_, suggestion_unterminated, fun hcloses => ?_, fun hcloses => ?_⟩
  · rw [Template.parse_eq, h.ofTokens_eq]
    rfl
  · obtain ⟨n, hn, hnodes⟩ := h.exists_node hcloses
    refine ⟨n, hn, (Template.parse_eq tags (o.ended name) file).trans ?_⟩
    rw [hnodes]
    rfl
  · obtain ⟨e, herror, hfault⟩ := h.exists_error hcloses
    refine ⟨e, (Template.parse_eq tags (o.ended name) file).trans ?_, hfault⟩
    rw [herror]
    rfl

/-- A comment under another name, with a tag in it. -/
def openNote : Origin := ⟨none, "\x7b% note %\x7d\x7b% if a %\x7d", false⟩

def noteTags : TagTable := TagTable.default.insert "note" .comment

theorem Template.hint_closes_openNote :
    openNote.LeavesOpen noteTags ⟨.tag, "\x7b% note %\x7d", 1⟩ "note" (.literal true) ∧
    openNote.FollowsHint noteTags none 1 "note" (.literal true) := by
  have htag : Token.IsTag ⟨.tag, "\x7b% note %\x7d", 1⟩ "note" [] :=
    ⟨rfl, by with_unfolding_all rfl⟩
  have hbody : Reader.IsBody noteTags ⟨.tag, "\x7b% note %\x7d", 1⟩
      [⟨.tag, "\x7b% if a %\x7d", 1⟩] := by
    refine ⟨⟨[], [⟨"note", 1, .literal true [], []⟩], false⟩,
      ⟨[], [⟨"note", 1, .literal true "\x7b% if a %\x7d".toList, []⟩], false⟩, ?_, ?_, rfl⟩
    · exact Reader.moves_of_read (o := openNote) (by with_unfolding_all rfl)
    · refine .cons (Nat.le_refl 1) ?_ (.nil (Nat.le_refl 1))
      exact Reader.moves_of_read (o := openNote) (by with_unfolding_all rfl)
  have hopen : openNote.LeavesOpen noteTags ⟨.tag, "\x7b% note %\x7d", 1⟩ "note"
      (.literal true) :=
    ⟨⟨.literal true [], ⟨htag, rfl, rfl⟩, rfl⟩, trivial, ⟨[], htag⟩,
      ⟨_, by with_unfolding_all rfl, hbody⟩, nofun⟩
  exact ⟨hopen, Template.hint_closes_block hopen none⟩

/-- A loop under another name. -/
def openLoop : Origin := ⟨none, "\x7b% loop x in xs %\x7d\x7b\x7b x \x7d\x7d", false⟩

def loopTags : TagTable := TagTable.default.insert "loop" .loop

theorem Template.openLoop_is_not_closed :
    (∃ e, Template.parse loopTags openLoop.source none none false = .error (.malformed e) ∧
      e.fault.suggestion = some "Add \x7b% endloop %\x7d to close the block") ∧
    ∃ e, Template.parse loopTags (openLoop.source ++ "\x7b% endloop %\x7d") none none false =
      .error (.malformed e) ∧ e.fault = .unexpectedTag "endloop" := by
  constructor
  · exact ⟨openLoop.error 1 (.unterminated "loop"), by with_unfolding_all rfl, rfl⟩
  · exact ⟨(openLoop.ended "loop").error 1 (.unexpectedTag "endloop"),
      by with_unfolding_all rfl, rfl⟩

end Stencil
