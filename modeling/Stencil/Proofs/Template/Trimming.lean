import Stencil.Proofs.Template.Bodies
import Stencil.Proofs.Token.Dashes
import Stencil.Proofs.Token.Rules

/-!
# What dashes do

A dash trims the text next to it and nothing else. Which texts a template shows is read off its
tokens one by one, each with its two neighbours; and without its dashes, the texts being trimmed
beforehand, it has the same tree.
-/

namespace Stencil

open Text

/-! ## Roles -/

/-- What a token is in a template. A literal block may be closed with text of it in the marker. -/
inductive Role
  | text
  | marker
  | opening
  | inside
  | closing (leading : List Char)

/-- The text of a literal block so far. -/
def Block.text? : Block → Option (List Char)
  | .literal _ body => some body
  | _ => none

namespace Reader

/-- The literal block that a reader is in, with the text of it so far. -/
def literal? (r : Reader) : Option (String × List Char) :=
  r.opened.head?.bind fun b => b.block.text?.map (b.name, ·)

/-- The role of a token that is read from one reader to the next. -/
def role (r r' : Reader) (t : Token) : Role :=
  match r.literal? with
  | some (name, _) =>
    match Literal.closing? name t.value.toList with
    | some leading => .closing leading
    | none => .inside
  | none => if t.kind = .text then .text else if r'.literal?.isSome then .opening else .marker

/-- The tokens that can be read, with their roles. -/
def roles (tags : TagTable) (o : Origin) : Reader → List Token → List (Role × Token)
  | _, [] => []
  | r, t :: ts =>
    match r.read tags o t with
    | .ok r' => (r.role r' t, t) :: roles tags o r' ts
    | .error _ => []

end Reader

/-! ## The rule -/

/-- The token before a text trims it: it is a marker with a dash, outside of literal blocks. -/
def trimsAfter : Option (Role × Token) → Bool
  | some (.marker, t) => t.trimsRight
  | _ => false

/-- What is left of a text between two other tokens. -/
def shownText (before : Option (Role × Token)) (t : Token) (after : Option Token) : List Char :=
  let cs := if trimsAfter before then trimStart t.value.toList else t.value.toList
  if after.any Token.trimsLeft then trimEnd cs else cs

/-- What a token adds to the leaves of a tree, given the text of the literal block it is in. -/
def leafOf (before : Option (Role × Token)) (body : List Char) (t : Token) (after : Option Token) :
    Role → List Leaf
  | .text =>
    let cs := shownText before t after
    if cs = [] then [] else [.text t.line (String.ofList cs)]
  | .closing leading => [.literal (String.ofList (body ++ leading))]
  | _ => []

/-- The text of a literal block after one more token. -/
def bodyAfter (body : List Char) (t : Token) : Role → List Char
  | .opening => []
  | .inside => body ++ t.value.toList
  | _ => body

/-- The leaves that tokens make, by the rule for each of them. -/
def leavesOf (before : Option (Role × Token)) (body : List Char) :
    List (Role × Token) → List Leaf
  | [] => []
  | (role, t) :: rest =>
    leafOf before body t (rest.head?.map (·.2)) role ++
      leavesOf (some (role, t)) (bodyAfter body t role) rest

/-- A token without dashes, and without what dashes next to it trim. -/
def settledToken (before : Option (Role × Token)) (t : Token) (after : Option Token) :
    Role → List Token
  | .text =>
    let cs := shownText before t after
    if cs = [] then [] else [{ t with value := String.ofList cs }]
  | .marker => [t.plain]
  | .opening => [t.plain]
  | .inside => [t]
  | .closing _ => [t]

/-- The tokens without dashes outside of literal blocks, and without what these trim. -/
def settled (before : Option (Role × Token)) : List (Role × Token) → List Token
  | [] => []
  | (role, t) :: rest =>
    settledToken before t (rest.head?.map (·.2)) role ++ settled (some (role, t)) rest

/-! ## What the next token leaves -/

/-- The nodes of a list without what the next token trims, the last node first. -/
def Reader.ahead (r : Reader) (next : Option Token) : Reader :=
  ⟨if next.any Token.trimsLeft then Reader.trimLast r.nodes else r.nodes, r.opened, false⟩

theorem Reader.ahead_of_fresh {r : Reader} (h : EndsFresh r.nodes) (next : Option Token) :
    r.ahead next = { r with trimsNext := false } := by
  have htrim : trimLast r.nodes = r.nodes := by
    unfold trimLast
    split
    · next line value rest heq =>
      have htext := h (.text line value) (by rw [heq]; rfl)
      cases htext
    · rfl
  unfold ahead
  rw [htrim, ite_self]

theorem Reader.ahead_addText {before : Option (Role × Token)} {r : Reader}
    (htrims : r.trimsNext = trimsAfter before) (hfresh : EndsFresh r.nodes) (t : Token)
    (next : Option Token) :
    (r.addText t.line t.value).ahead next =
      ⟨if shownText before t next = [] then r.nodes
        else .text t.line (String.ofList (shownText before t next)) :: r.nodes,
        r.opened, false⟩ := by
  unfold addText shownText
  rw [htrims]
  dsimp only
  generalize (if trimsAfter before then trimStart t.value.toList else t.value.toList) = cs
  by_cases hcs : cs = []
  · subst hcs
    have hnone : (if next.any Token.trimsLeft then trimEnd [] else []) = ([] : List Char) := by
      split <;> rfl
    rw [if_pos rfl, if_pos hnone]
    exact Reader.ahead_of_fresh (r := ⟨r.nodes, r.opened, false⟩) hfresh next
  · rw [if_neg hcs]
    cases hnext : next.any Token.trimsLeft with
    | false => simp [Reader.ahead, hnext, hcs]
    | true => simp [Reader.ahead, hnext, Reader.trimLast]

namespace Reader

variable {tags : TagTable} {o : Origin} {r r' : Reader}

theorem startTag_trimsNext {line : Nat} {name : String} {markup : List Char}
    (h : startTag tags o r line name markup = .ok r') (trims : Bool) :
    startTag tags o { r with trimsNext := trims } line name markup =
      .ok { r' with trimsNext := trims } := by
  unfold startTag at h ⊢
  split at h
  · cases h
  · obtain ⟨start, hlocate, hr⟩ := exists_of_bind_eq_ok h
    rw [except_bind_of_ok hlocate]
    cases start <;> (cases hr; rfl)

theorem readTag_trimsNext {line : Nat} {name : String} {markup : List Char}
    (h : readTag tags o r line name markup = .ok r') (trims : Bool) :
    readTag tags o { r with trimsNext := trims } line name markup =
      .ok { r' with trimsNext := trims } := by
  obtain ⟨nodes, opened, _⟩ := r
  unfold readTag at h ⊢
  cases opened with
  | nil => exact startTag_trimsNext h trims
  | cons inner outer =>
    dsimp only at h ⊢
    split at h
    · exact startTag_trimsNext h trims
    · obtain ⟨ending, hlocate, hr⟩ := exists_of_bind_eq_ok h
      rw [except_bind_of_ok hlocate]
      cases ending <;> (cases hr; rfl)

theorem read_plain {t : Token} (hmarkup : ReadsMarkup r.opened) (hkind : t.kind ≠ .text)
    (h : r.read tags o t = .ok r') :
    (r.ahead (some t)).read tags o t.plain = .ok { r' with trimsNext := false } := by
  have hahead : (r.ahead (some t)).trimAround t.plain =
      { r.trimAround t with trimsNext := false } := by
    unfold trimAround
    rw [Token.plain_trimsLeft hkind, Token.plain_trimsRight hkind]
    rfl
  rw [read_of_readsMarkup hmarkup] at h
  rw [read_of_readsMarkup (r := r.ahead (some t)) hmarkup]
  unfold readMarkup at h ⊢
  rw [Token.plain_kind, Token.plain_markup hkind, Token.plain_line, hahead]
  cases hk : t.kind with
  | text => contradiction
  | output =>
    simp only [hk] at h ⊢
    obtain ⟨e, hlocate, hr⟩ := exists_of_bind_eq_ok h
    cases hr
    rw [except_bind_of_ok hlocate]
    rfl
  | tag =>
    simp only [hk] at h ⊢
    split at h
    · cases h
    · next name markup hsplit =>
      exact readTag_trimsNext h false

/-! ## Literal blocks -/

theorem literal?_eq_none : r.literal? = none ↔ ReadsMarkup r.opened := by
  obtain ⟨nodes, opened, trims⟩ := r
  cases opened with
  | nil => exact ⟨fun _ => nofun, fun _ => rfl⟩
  | cons inner outer =>
    obtain ⟨name, line, block, before⟩ := inner
    cases block with
    | literal => exact ⟨nofun, fun h => nomatch h _ rfl⟩
    | _ => exact ⟨fun _ b hb => by cases hb; rfl, fun _ => rfl⟩

theorem literal?_eq_some {inner : OpenBlock} {outer : List OpenBlock} {isComment : Bool}
    {body : List Char} (hopened : r.opened = inner :: outer)
    (hblock : inner.block = .literal isComment body) : r.literal? = some (inner.name, body) := by
  unfold literal?
  rw [hopened]
  simp [hblock, Block.text?]

/-! ## One token -/

/-- What is known of a reader after a token, with the text of the literal block it is in. -/
structure Follows (before : Option (Role × Token)) (body : List Char) (r : Reader) : Prop where
  trims : r.literal? = none → r.trimsNext = trimsAfter before
  fresh : (∀ t, before ≠ some (.text, t)) → EndsFresh r.nodes
  inside : ∀ name text, r.literal? = some (name, text) → r.nodes = [] ∧ text = body
  outer : ∀ b ∈ r.opened.tail, b.block.isLiteral = false

/-- One token, read with the rule for it. -/
structure Advances (tags : TagTable) (o : Origin) (before : Option (Role × Token))
    (body : List Char) (r : Reader) (t : Token) (next : Option Token) (r' : Reader) : Prop where
  follows : Follows (some (r.role r' t, t)) (bodyAfter body t (r.role r' t)) r'
  reads : (r.ahead (some t)).readAll tags o (settledToken before t next (r.role r' t)) =
    .ok (r'.ahead next)
  leaves : (r'.ahead next).leaves =
    (r.ahead (some t)).leaves ++ leafOf before body t next (r.role r' t)

section

variable {before : Option (Role × Token)} {body : List Char} {t : Token} {next : Option Token}

theorem advances_text (h : Follows before body r) (hmarkup : ReadsMarkup r.opened)
    (hkind : t.kind = .text) (hbefore : ∀ u, before ≠ some (.text, u)) :
    Advances tags o before body r t next (r.addText t.line t.value) := by
  have hnone : r.literal? = none := literal?_eq_none.mpr hmarkup
  have hrole : r.role (r.addText t.line t.value) t = .text := by
    unfold role
    rw [hnone]
    exact if_pos hkind
  have hahead : r.ahead (some t) = ⟨r.nodes, r.opened, false⟩ := ahead_of_fresh (h.fresh hbefore) _
  have hnext := ahead_addText (h.trims hnone) (h.fresh hbefore) t next
  constructor
  · rw [hrole]
    exact ⟨fun _ => rfl, fun hno => absurd rfl (hno t),
      fun name text hsome => absurd (hnone.symm.trans hsome) nofun, h.outer⟩
  · rw [hrole, hnext, hahead]
    by_cases hcs : shownText before t next = []
    · rw [settledToken, if_pos hcs, if_pos hcs]
      rfl
    · rw [settledToken, if_neg hcs, if_neg hcs, readAll_singleton,
        read_of_readsMarkup (r := ⟨r.nodes, r.opened, false⟩) hmarkup]
      simp [readMarkup, hkind, addText, hcs]
  · rw [hrole, hnext, hahead]
    by_cases hcs : shownText before t next = []
    · simp [leafOf, hcs]
    · simp [leafOf, hcs, leaves, bodyLeaves_append, bodyLeaves, Node.leaves]

section

variable {inner : OpenBlock} {outer : List OpenBlock} {isComment : Bool} {text : List Char}
  (hopened : r.opened = inner :: outer) (hblock : inner.block = .literal isComment text)

include hopened hblock

theorem role_of_closing?_eq_none (hclosing : Literal.closing? inner.name t.value.toList = none) :
    r.role r' t = .inside := by
  unfold role
  rw [literal?_eq_some hopened hblock]
  simp only [hclosing]

theorem role_of_closing?_eq_some {leading : List Char}
    (hclosing : Literal.closing? inner.name t.value.toList = some leading) :
    r.role r' t = .closing leading := by
  unfold role
  rw [literal?_eq_some hopened hblock]
  simp only [hclosing]

theorem advances_inside (h : Follows before body r)
    (hclosing : Literal.closing? inner.name t.value.toList = none) :
    Advances tags o before body r t next { r with
      opened := { inner with block := .literal isComment (text ++ t.value.toList) } :: outer } := by
  obtain ⟨hnodes, rfl⟩ := h.inside inner.name text (literal?_eq_some hopened hblock)
  have hfresh : EndsFresh r.nodes := by
    rw [hnodes]
    nofun
  have hahead : ∀ next, r.ahead next = { r with trimsNext := false } := ahead_of_fresh hfresh
  constructor
  · rw [role_of_closing?_eq_none hopened hblock hclosing]
    refine ⟨nofun, fun _ => hfresh, ?_, ?_⟩
    · rintro name text' ⟨⟩
      exact ⟨hnodes, rfl⟩
    · have houter := h.outer
      rwa [hopened] at houter
  · rw [role_of_closing?_eq_none hopened hblock hclosing, settledToken, readAll_singleton, hahead,
      read_of_literal (r := ⟨r.nodes, r.opened, false⟩) hopened hblock]
    simp [readLiteral, hclosing, ahead, hnodes, trimLast]
  · rw [role_of_closing?_eq_none hopened hblock hclosing, hahead]
    simp [leafOf, ahead, hnodes, trimLast, leaves, hopened, blockLeaves, hblock, Block.bodies]

theorem advances_closing (h : Follows before body r) {leading : List Char}
    (hclosing : Literal.closing? inner.name t.value.toList = some leading) :
    Advances tags o before body r t next
      ⟨.literal isComment inner.line inner.name (text ++ leading) :: inner.before, outer,
        false⟩ := by
  obtain ⟨hnodes, rfl⟩ := h.inside inner.name text (literal?_eq_some hopened hblock)
  have hrole {r'} : r.role r' t = .closing leading :=
    role_of_closing?_eq_some hopened hblock hclosing
  have hahead : r.ahead (some t) = { r with trimsNext := false } :=
    ahead_of_fresh (by rw [hnodes]; nofun) _
  have hfresh : EndsFresh
      (.literal isComment inner.line inner.name (text ++ leading) :: inner.before) := by
    rintro n ⟨⟩
    exact (isTidy_literal _ _ _ _).2
  have houter := h.outer
  rw [hopened, List.tail_cons] at houter
  have hnone : ReadsMarkup outer := fun b hb => houter b (List.mem_of_mem_head? hb)
  constructor
  · rw [hrole]
    refine ⟨fun _ => rfl, fun _ => hfresh, ?_, fun b hb => houter b (List.mem_of_mem_tail hb)⟩
    intro name text' hsome
    exact absurd (hsome.symm.trans (literal?_eq_none.mpr hnone)) nofun
  · rw [hrole, settledToken, readAll_singleton, hahead, ahead_of_fresh hfresh,
      read_of_literal (r := ⟨r.nodes, r.opened, false⟩) hopened hblock]
    simp only [readLiteral, hclosing]
    rfl
  · rw [hrole, hahead, ahead_of_fresh hfresh]
    simp [leafOf, leaves, hopened, hnodes, blockLeaves, hblock, Block.bodies, bodyLeaves_append,
      bodyLeaves, Node.leaves_literal]

end

/-- What is left to show of a token that is neither text nor in a literal block. -/
structure MarkerLeaves (r : Reader) (t : Token) (r' : Reader) : Prop where
  trims : r'.trimsNext = t.trimsRight
  fresh : EndsFresh r'.nodes
  inside : ∀ name text, r'.literal? = some (name, text) → r'.nodes = [] ∧ text = []
  outer : ∀ b ∈ r'.opened.tail, b.block.isLiteral = false
  leaves : r'.leaves = (r.ahead (some t)).leaves

theorem advances_marker (hmarkup : ReadsMarkup r.opened) (hkind : t.kind ≠ .text)
    (hread : r.read tags o t = .ok r') (h : MarkerLeaves r t r') :
    Advances tags o before body r t next r' := by
  have hnone : r.literal? = none := literal?_eq_none.mpr hmarkup
  have hrole : r.role r' t = if r'.literal?.isSome then .opening else .marker := by
    unfold role
    rw [hnone]
    exact if_neg hkind
  have hplain : settledToken before t next (r.role r' t) = [t.plain] := by
    rw [hrole]
    split <;> rfl
  have hleaf : leafOf before body t next (r.role r' t) = [] := by
    rw [hrole]
    split <;> rfl
  constructor
  · refine ⟨?_, fun _ => h.fresh, ?_, h.outer⟩
    · intro hno
      rw [hrole, hno, h.trims]
      rfl
    · intro name text hsome
      rw [hrole, hsome]
      exact h.inside name text hsome
  · rw [hplain, readAll_singleton, ahead_of_fresh h.fresh]
    exact read_plain hmarkup hkind hread
  · rw [hleaf, List.append_nil, ahead_of_fresh h.fresh]
    exact h.leaves

theorem markerLeaves_of_makes (h : Follows before body r) (hmarkup : ReadsMarkup r.opened)
    {n : Node} (hmakes : t.Makes tags n) : MarkerLeaves r t ((r.trimAround t).addNode n) where
  trims := rfl
  fresh := by
    rintro m ⟨⟩
    exact Node.isText_of_isStructural hmakes.isEmpty.1
  inside name text hsome := absurd (hsome.symm.trans (literal?_eq_none.mpr hmarkup)) nofun
  outer := h.outer
  leaves := by
    obtain ⟨hstructural, hbodies⟩ := hmakes.isEmpty
    rw [leaves_addNode, Node.leaves_eq hstructural, hbodies]
    exact List.append_nil _

theorem markerLeaves_of_opens (h : Follows before body r) (hmarkup : ReadsMarkup r.opened)
    {block : Block} (hblock : TagStart.IsEmpty (.block block)) (name : String) :
    MarkerLeaves r t ((r.trimAround t).openBlock name t.line block) where
  trims := rfl
  fresh := nofun
  inside := by
    intro name' text hsome
    refine ⟨rfl, ?_⟩
    cases block with
    | literal isComment text' =>
      cases hsome
      exact hblock.2 isComment text rfl
    | _ => cases hsome
  outer := by
    intro b hb
    have hopened : b ∈ r.opened := hb
    cases hr : r.opened with
    | nil => simp [hr] at hopened
    | cons inner outer =>
      rw [hr] at hopened
      rcases List.mem_cons.mp hopened with rfl | hb
      · exact hmarkup b (by rw [hr]; rfl)
      · exact h.outer b (by rwa [hr])
  leaves := leaves_openBlock hblock.1 name t.line

theorem markerLeaves_of_ends (h : Follows before body r) {inner : OpenBlock}
    {outer : List OpenBlock} {ending : BodyEnd} (hopened : r.opened = inner :: outer)
    (hends : ending.Adds inner.block (r.trimAround t).nodes.reverse) :
    MarkerLeaves r t (afterBody inner outer t.trimsRight ending) := by
  have houter := h.outer
  rw [hopened, List.tail_cons] at houter
  have hleaves := leaves_afterBody (r := r.trimAround t) hopened hends t.trimsRight
  cases ending with
  | closed n =>
    have hnone : ReadsMarkup outer := fun b hb => houter b (List.mem_of_mem_head? hb)
    constructor
    · rfl
    · rintro m ⟨⟩
      exact Node.isText_of_isStructural hends.1
    · intro name text hsome
      exact absurd (hsome.symm.trans (literal?_eq_none.mpr hnone)) nofun
    · exact fun b hb => houter b (List.mem_of_mem_tail hb)
    · exact hleaves
  | continued next =>
    have hnone : ReadsMarkup ({ inner with block := next } :: outer) := by
      rintro b ⟨⟩
      exact hends.1
    constructor
    · rfl
    · nofun
    · intro name text hsome
      exact absurd (hsome.symm.trans (literal?_eq_none.mpr hnone)) nofun
    · exact houter
    · exact hleaves

theorem advances_of_read (h : Follows before body r) (hread : r.read tags o t = .ok r')
    (hbefore : t.kind = .text → ∀ u, before ≠ some (.text, u)) :
    Advances tags o before body r t next r' := by
  cases moves_of_read hread with
  | inside hopened hblock hclosing => exact advances_inside hopened hblock h hclosing
  | closesLiteral hopened hblock hclosing => exact advances_closing hopened hblock h hclosing
  | text hmarkup hkind => exact advances_text h hmarkup hkind (hbefore hkind)
  | makes hmarkup hmakes =>
    exact advances_marker hmarkup hmakes.kind_ne hread (markerLeaves_of_makes h hmarkup hmakes)
  | opens hmarkup htag hkind hstart =>
    have hblock := TagKind.isEmpty_of_start hstart
    exact advances_marker hmarkup htag.kind_ne hread (markerLeaves_of_opens h hmarkup hblock _)
  | ends hmarkup htag hopened hends =>
    have hadds := hends.adds
    exact advances_marker hmarkup htag.kind_ne hread (markerLeaves_of_ends h hopened hadds)

/-! ## All tokens -/

/-- No two texts stand next to each other. -/
def Spread (ts : List Token) : Prop := ts.IsChain fun t u => ¬(t.kind = .text ∧ u.kind = .text)

theorem spread_all (source : String) : Spread (Token.all source) := by
  have hcuts := Token.cuts_number_pieces 1 source.toList
  refine List.isChain_iff_forall_rel_of_append_cons_cons.mpr ?_
  intro t u before after heq
  exact hcuts.apart before t u after heq

theorem kind_of_role (h : r.role r' t = .text) : t.kind = .text := by
  unfold role at h
  split at h
  · split at h <;> cases h
  · split at h
    · assumption
    · split at h <;> cases h

/-- What a run of tokens does is what the rule says of each of them. -/
theorem advances_readAll {ts : List Token} (h : Follows before body r)
    (hbefore : ∀ t ∈ ts.head?, t.kind = .text → ∀ u, before ≠ some (.text, u)) (hts : Spread ts)
    (hread : r.readAll tags o ts = .ok r') :
    (r.roles tags o ts).map (·.2) = ts ∧
    (r.ahead ts.head?).readAll tags o (settled before (r.roles tags o ts)) = .ok (r'.ahead none) ∧
    (r'.ahead none).leaves = (r.ahead ts.head?).leaves ++ leavesOf before body (r.roles tags o ts) ∧
    (r.IsTidy → r'.IsTidy) := by
  induction ts generalizing before body r with
  | nil =>
    cases hread
    exact ⟨rfl, rfl, (List.append_nil _).symm, id⟩
  | cons t ts ih =>
    obtain ⟨r₁, hfirst, hrest⟩ := exists_of_bind_eq_ok hread
    have hstep : Advances tags o before body r t ts.head? r₁ :=
      advances_of_read h hfirst (hbefore t rfl)
    have hnext : ∀ u ∈ ts.head?, u.kind = .text → ∀ v, some (r.role r₁ t, t) ≠ some (.text, v) := by
      intro u hu hkind v heq
      have hrole : r.role r₁ t = .text := (Prod.mk.inj (Option.some.inj heq)).1
      exact (List.isChain_cons.mp hts).1 u hu ⟨kind_of_role hrole, hkind⟩
    obtain ⟨htokens, hreads, hleaves, htidy⟩ := ih hstep.follows hnext hts.tail hrest
    have hroles : r.roles tags o (t :: ts) = (r.role r₁ t, t) :: r₁.roles tags o ts := by
      rw [roles, hfirst]
    have hhead : (r₁.roles tags o ts).head?.map (·.2) = ts.head? := by
      rw [← List.head?_map, htokens]
    rw [hroles, settled, leavesOf, hhead]
    refine ⟨by rw [List.map_cons, htokens], ?_, ?_, ?_⟩
    · exact (readAll_append_of_ok hstep.reads _).trans hreads
    · rw [hleaves, hstep.leaves, List.append_assoc]
      rfl
    · refine fun hr => htidy (hr.move (moves_of_read hfirst) fun hkind _ => ?_)
      exact h.fresh (hbefore t rfl hkind)

end

end Reader

/-! ## Whole templates -/

/-- The tokens of a source, with their roles. -/
def Origin.roles (o : Origin) (tags : TagTable) : List (Role × Token) :=
  Reader.start.roles tags o (Token.all o.source)

/--
The texts of a tree are the text tokens of the source outside of literal blocks, one by one and each
by the rule for it, and literal blocks keep all that is in them. The tree is the one of the tokens
without dashes and with the texts trimmed beforehand. No list of nodes in it holds an empty text, or
two texts next to each other.
-/
structure Origin.TrimsNextTexts (o : Origin) (tags : TagTable) (nodes : List Node) : Prop where
  tokens : (o.roles tags).map (·.2) = Token.all o.source
  leaves : bodyLeaves nodes = leavesOf none [] (o.roles tags)
  settled : Node.ofTokens tags o (settled none (o.roles tags)) = .ok nodes
  tidy : TidyBody nodes

theorem Reader.start_follows : Reader.start.Follows none [] :=
  ⟨fun _ => rfl, fun _ => nofun, nofun, nofun⟩

theorem Node.trimsNextTexts_of_ofTokens {o : Origin} {tags : TagTable} {nodes : List Node}
    (h : Node.ofTokens tags o (Token.all o.source) = .ok nodes) : o.TrimsNextTexts tags nodes := by
  have htidy : Reader.start.IsTidy := ⟨tidyBody_nil, nofun⟩
  have hahead : ∀ next, Reader.start.ahead next = Reader.start := Reader.ahead_of_fresh nofun
  obtain ⟨r, hread, hfinish⟩ := exists_of_bind_eq_ok h
  obtain ⟨htokens, hreads, hleaves, htidies⟩ := Reader.advances_readAll Reader.start_follows
    (fun _ _ _ _ => nofun) (Reader.spread_all o.source) hread
  unfold Reader.finish at hfinish
  split at hfinish
  · next hopened =>
    cases hfinish
    rw [hahead] at hreads hleaves
    refine ⟨htokens, ?_, ?_, (htidies htidy).nodes.reverse⟩
    · have hlast : (r.ahead none).leaves = bodyLeaves r.nodes.reverse := by
        simp [Reader.leaves, Reader.ahead, hopened]
      exact hlast.symm.trans hleaves
    · unfold Node.ofTokens Origin.roles
      rw [except_bind_of_ok hreads]
      simp only [Reader.finish, Reader.ahead, hopened]
      rfl
  · cases hfinish

theorem Template.dashes_trim_next_texts {tags : TagTable} {source : String}
    {name file : Option String} {isPartial : Bool} {template : Template}
    (h : Template.parse tags source name file isPartial = .ok template) :
    Origin.TrimsNextTexts ⟨name, source, isPartial⟩ tags template.nodes := by
  obtain ⟨nodes, hnodes, ht⟩ := exists_of_bind_eq_ok h
  cases ht
  exact Node.trimsNextTexts_of_ofTokens hnodes

/-- Dashes on both sides of a literal block, an output and an assignment, with blanks there. -/
def dashedPage : Template where
  nodes := [.text 1 "a", .raw 1 "raw" " b ", .text 1 " c",
    .output 1 "x" (.lookup (.name "x") [] "x"), .assign 1 ⟨"y", .literal (.int 1)⟩]
  name := none
  file := none
  isPartial := false
  source := "a \x7b%- raw -%\x7d b \x7b%- endraw -%\x7d c \x7b\x7b- x -\x7d\x7d  " ++
    "\x7b%- assign y = 1 -%\x7d "

theorem parse_dashedPage :
    Template.parse TagTable.default dashedPage.source none none false = .ok dashedPage := by
  with_unfolding_all rfl

theorem trimsNextTexts_dashedPage :
    Template.parse TagTable.default dashedPage.source none none false = .ok dashedPage ∧
    Origin.TrimsNextTexts ⟨none, dashedPage.source, false⟩ TagTable.default dashedPage.nodes :=
  ⟨parse_dashedPage, Template.dashes_trim_next_texts parse_dashedPage⟩

end Stencil
