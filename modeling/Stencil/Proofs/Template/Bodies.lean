import Mathlib.Data.List.Chain
import Stencil.Proofs.Template.Moves

/-!
# The bodies of a tree

Every node has its bodies, the lists of nodes in it. What a block has of them when it ends is what
it had before, and the body that ended. So what is true of bodies one by one, such as which texts
stand in them, can be followed from token to token.
-/

namespace Stencil

/-! ## Bodies -/

def Node.bodies : Node → List (List Node)
  | .ifChanged _ body => [body]
  | .conditional _ _ branches otherwise => branches.map (·.2) ++ [otherwise]
  | .loop _ _ body otherwise => [body, otherwise]
  | _ => []

/-- The bodies of a block that have come to their end. -/
def Block.bodies : Block → List (List Node)
  | .branches _ earlier _ => earlier.map (·.2)
  | .otherwise _ conditions => conditions.map (·.2)
  | .loopOtherwise _ body => [body]
  | _ => []

/-- A node that is made of tokens outside of texts and literal blocks. -/
def Node.isStructural : Node → Bool
  | .text .. => false
  | .raw .. => false
  | .comment .. => false
  | _ => true

/-- Nothing stands in the bodies yet, and in a literal block no text. -/
def TagStart.IsEmpty : TagStart → Prop
  | .node n => n.isStructural = true ∧ n.bodies = []
  | .block b => b.bodies = [] ∧ ∀ isComment body, b = .literal isComment body → body = []

theorem TagKind.isEmpty_of_start {kind : TagKind} {line : Nat} {name : String}
    {markup : List Char} {start : TagStart} (h : kind.start line name markup = .ok start) :
    start.IsEmpty := by
  cases kind with
  | assign =>
    obtain ⟨a, -, ha⟩ := exists_of_bind_eq_ok h
    cases ha
    exact ⟨rfl, rfl⟩
  | inclusion =>
    obtain ⟨i, -, hi⟩ := exists_of_bind_eq_ok h
    cases hi
    exact ⟨rfl, rfl⟩
  | inline tag =>
    cases h
    exact ⟨rfl, rfl⟩
  | conditional | «unless» =>
    obtain ⟨c, -, hc⟩ := exists_of_bind_eq_ok h
    cases hc
    exact ⟨rfl, fun _ _ hliteral => by cases hliteral⟩
  | loop =>
    simp only [TagKind.start] at h
    split at h <;> cases h
    exact ⟨rfl, fun _ _ hliteral => by cases hliteral⟩
  | ifChanged =>
    cases h
    exact ⟨rfl, fun _ _ hliteral => by cases hliteral⟩
  | raw | comment =>
    simp only [TagKind.start, startLiteral] at h
    split at h <;> cases h
    refine ⟨rfl, ?_⟩
    rintro isComment body ⟨⟩
    rfl

theorem Token.Makes.isEmpty {tags : TagTable} {t : Token} {n : Node} (h : t.Makes tags n) :
    TagStart.IsEmpty (.node n) := by
  cases h with
  | output => exact ⟨rfl, rfl⟩
  | tag hkind hstarts =>
    obtain ⟨htag, hkind, hstart⟩ := hstarts
    exact TagKind.isEmpty_of_start hstart

/-- What comes of a block when a body of it ends: that body comes last, or an empty one after it. -/
def BodyEnd.Adds (ending : BodyEnd) (block : Block) (body : List Node) : Prop :=
  match ending with
  | .closed n => n.isStructural = true ∧
    (n.bodies = block.bodies ++ [body] ∨ n.bodies = block.bodies ++ [body, []])
  | .continued next => next.isLiteral = false ∧ next.bodies = block.bodies ++ [body]

theorem Block.Ends.adds {line : Nat} {body : List Node} {block : Block} {name : String}
    {markup : List Char} {ending : BodyEnd} (h : block.Ends line body name markup ending) :
    ending.Adds block body := by
  cases h with
  | lastBranch => exact ⟨rfl, .inr (by simp [Node.bodies, Block.bodies])⟩
  | elseBranch => exact ⟨rfl, by simp [Block.bodies]⟩
  | elsifBranch => exact ⟨rfl, by simp [Block.bodies]⟩
  | otherwise => exact ⟨rfl, .inl rfl⟩
  | loop => exact ⟨rfl, .inr rfl⟩
  | loopElse => exact ⟨rfl, rfl⟩
  | loopOtherwise => exact ⟨rfl, .inl rfl⟩
  | ifChanged => exact ⟨rfl, .inl rfl⟩

/-! ## Leaves -/

/-- A text of the tree, or the body of a literal block. -/
inductive Leaf
  | text (line : Nat) (value : String)
  | literal (body : String)

mutual

/-- The texts and the literal blocks in a node, as they come in the template. -/
def Node.leaves : Node → List Leaf
  | .text line value => [.text line value]
  | .raw _ _ body => [.literal body]
  | .comment _ _ body => [.literal body]
  | .ifChanged _ body => bodyLeaves body
  | .conditional _ _ branches otherwise => branchLeaves branches ++ bodyLeaves otherwise
  | .loop _ _ body otherwise => bodyLeaves body ++ bodyLeaves otherwise
  | _ => []

def bodyLeaves : List Node → List Leaf
  | [] => []
  | n :: rest => n.leaves ++ bodyLeaves rest

def branchLeaves : List (Chain × List Node) → List Leaf
  | [] => []
  | (_, body) :: rest => bodyLeaves body ++ branchLeaves rest

end

theorem bodyLeaves_append (ns ms : List Node) :
    bodyLeaves (ns ++ ms) = bodyLeaves ns ++ bodyLeaves ms := by
  induction ns with
  | nil => rfl
  | cons n ns ih => simp only [List.cons_append, bodyLeaves, ih, List.append_assoc]

theorem branchLeaves_eq (branches : List (Chain × List Node)) :
    branchLeaves branches = (branches.map (·.2)).flatMap bodyLeaves := by
  induction branches with
  | nil => rfl
  | cons b branches ih => simp only [branchLeaves, ih, List.map_cons, List.flatMap_cons]

theorem Node.leaves_eq {n : Node} (h : n.isStructural = true) :
    n.leaves = n.bodies.flatMap bodyLeaves := by
  cases n with
  | text | raw | comment => cases h
  | conditional => simp [leaves, bodies, branchLeaves_eq]
  | ifChanged => simp [leaves, bodies]
  | loop => simp [leaves, bodies]
  | _ => rfl

theorem Node.leaves_literal (isComment : Bool) (line : Nat) (name : String) (body : List Char) :
    (Node.literal isComment line name body).leaves = [.literal (String.ofList body)] := by
  cases isComment <;> rfl

/-! ## Texts that stand apart -/

def Node.isText : Node → Bool
  | .text .. => true
  | _ => false

theorem Node.isText_of_isStructural {n : Node} (h : n.isStructural = true) : n.isText = false := by
  cases n with
  | text => cases h
  | _ => rfl

/-- No text in the list is empty, and no two texts are next to each other. -/
structure Neat (ns : List Node) : Prop where
  texts : ∀ line, Node.text line "" ∉ ns
  apart : ns.IsChain fun n m => n.isText = false ∨ m.isText = false

/-- All bodies in a node are neat, at any depth. -/
inductive Node.IsTidy : Node → Prop
  | mk {n : Node} : (∀ body ∈ n.bodies, Neat body) → (∀ body ∈ n.bodies, ∀ m ∈ body, IsTidy m) →
    IsTidy n

/-- The list is neat, and so are all bodies in it. -/
def TidyBody (ns : List Node) : Prop := Neat ns ∧ ∀ n ∈ ns, n.IsTidy

theorem Neat.reverse {ns : List Node} (h : Neat ns) : Neat ns.reverse where
  texts line hmem := h.texts line (List.mem_reverse.mp hmem)
  apart := List.isChain_reverse.mpr (h.apart.imp fun _ _ => Or.symm)

theorem TidyBody.reverse {ns : List Node} (h : TidyBody ns) : TidyBody ns.reverse :=
  ⟨h.1.reverse, fun n hn => h.2 n (List.mem_reverse.mp hn)⟩

theorem tidyBody_nil : TidyBody [] := ⟨⟨nofun, .nil⟩, nofun⟩

theorem TidyBody.tail {n : Node} {ns : List Node} (h : TidyBody (n :: ns)) : TidyBody ns :=
  ⟨⟨fun line hmem => h.1.texts line (List.mem_cons_of_mem n hmem), h.1.apart.tail⟩,
    fun m hm => h.2 m (List.mem_cons_of_mem n hm)⟩

/-- No text comes last in the nodes, of which the last one is the first here. -/
def EndsFresh (ns : List Node) : Prop := ∀ n ∈ ns.head?, n.isText = false

theorem TidyBody.cons {n : Node} {ns : List Node} (h : TidyBody ns) (hn : n.IsTidy)
    (htext : n.isText = false) : TidyBody (n :: ns) := by
  refine ⟨⟨?_, List.isChain_cons.mpr ⟨fun m _ => .inl htext, h.1.apart⟩⟩,
    List.forall_mem_cons.mpr ⟨hn, h.2⟩⟩
  rintro line (_ | ⟨_, hmem⟩)
  · cases htext
  · exact h.1.texts line hmem

theorem TidyBody.cons_text {ns : List Node} (h : TidyBody ns) (hfresh : EndsFresh ns) (line : Nat)
    {value : String} (hvalue : value ≠ "") : TidyBody (.text line value :: ns) := by
  refine ⟨⟨?_, List.isChain_cons.mpr ⟨fun m hm => .inr (hfresh m hm), h.1.apart⟩⟩,
    List.forall_mem_cons.mpr ⟨.mk nofun nofun, h.2⟩⟩
  rintro line' (_ | ⟨_, hmem⟩)
  · exact hvalue rfl
  · exact h.1.texts line' hmem

theorem TidyBody.trimLast {ns : List Node} (h : TidyBody ns) :
    TidyBody (Reader.trimLast ns) := by
  unfold Reader.trimLast
  split
  · next line value rest =>
    have hfresh : EndsFresh rest := fun n hn =>
      ((List.isChain_cons.mp h.1.apart).1 n hn).resolve_left nofun
    dsimp only
    split
    · exact h.tail
    · next hcs => exact h.tail.cons_text hfresh line (by simpa using hcs)
  · exact h

theorem isTidy_of_bodies {n : Node} (h : ∀ body ∈ n.bodies, TidyBody body) : n.IsTidy :=
  .mk (fun body hbody => (h body hbody).1) fun body hbody => (h body hbody).2

/-! ## Readers -/

namespace Reader

variable {tags : TagTable} {r r' : Reader} {t : Token}

/-- What the nodes before a block and its bodies so far hold. -/
def blockLeaves (b : OpenBlock) : List Leaf :=
  bodyLeaves b.before.reverse ++ b.block.bodies.flatMap bodyLeaves

/-- The leaves of all that was read, from the outside in. -/
def leaves (r : Reader) : List Leaf :=
  r.opened.reverse.flatMap blockLeaves ++ bodyLeaves r.nodes.reverse

theorem leaves_cons (nodes : List Node) (inner : OpenBlock) (outer : List OpenBlock)
    (trims : Bool) :
    leaves ⟨nodes, inner :: outer, trims⟩ =
      outer.reverse.flatMap blockLeaves ++ (blockLeaves inner ++ bodyLeaves nodes.reverse) := by
  simp [leaves]

theorem leaves_addNode (n : Node) : (r.addNode n).leaves = r.leaves ++ n.leaves := by
  simp [leaves, addNode, bodyLeaves_append, bodyLeaves]

theorem leaves_openBlock {block : Block} (h : block.bodies = []) (name : String) (line : Nat) :
    (r.openBlock name line block).leaves = r.leaves := by
  simp [leaves, openBlock, blockLeaves, h, bodyLeaves]

theorem leaves_afterBody {ending : BodyEnd} {inner : OpenBlock} {outer : List OpenBlock}
    (hopened : r.opened = inner :: outer) (h : ending.Adds inner.block r.nodes.reverse)
    (trims : Bool) : (afterBody inner outer trims ending).leaves = r.leaves := by
  obtain ⟨nodes, opened, _⟩ := r
  obtain rfl : opened = inner :: outer := hopened
  rw [leaves_cons]
  cases ending with
  | closed n =>
    obtain ⟨hstructural, hbodies | hbodies⟩ := h
    · simp [afterBody, leaves, blockLeaves, bodyLeaves_append, bodyLeaves,
        Node.leaves_eq hstructural, hbodies]
    · simp [afterBody, leaves, blockLeaves, bodyLeaves_append, bodyLeaves,
        Node.leaves_eq hstructural, hbodies]
  | continued next =>
    simp [afterBody, leaves_cons, blockLeaves, h.2, bodyLeaves]

/-- All that was read so far is tidy. -/
structure IsTidy (r : Reader) : Prop where
  nodes : TidyBody r.nodes
  opened : ∀ b ∈ r.opened, TidyBody b.before ∧ ∀ body ∈ b.block.bodies, TidyBody body

theorem IsTidy.addText (h : r.IsTidy) (hfresh : EndsFresh r.nodes) (line : Nat) (value : String) :
    (r.addText line value).IsTidy := by
  refine ⟨?_, h.opened⟩
  unfold Reader.addText
  dsimp only
  generalize (if r.trimsNext then Text.trimStart value.toList else value.toList) = cs
  split
  · exact h.nodes
  · next hcs => exact h.nodes.cons_text hfresh line (by simpa using hcs)

theorem IsTidy.trimAround (h : r.IsTidy) (t : Token) : (r.trimAround t).IsTidy := by
  refine ⟨?_, h.opened⟩
  unfold Reader.trimAround
  dsimp only
  split
  · exact h.nodes.trimLast
  · exact h.nodes

theorem IsTidy.addNode (h : r.IsTidy) {n : Node} (hn : TagStart.IsEmpty (.node n)) :
    (r.addNode n).IsTidy := by
  obtain ⟨hstructural, hbodies⟩ := hn
  refine ⟨h.nodes.cons (isTidy_of_bodies ?_) (Node.isText_of_isStructural hstructural), h.opened⟩
  rw [hbodies]
  nofun

theorem IsTidy.openBlock (h : r.IsTidy) {block : Block} (hblock : TagStart.IsEmpty (.block block))
    (name : String) (line : Nat) : (r.openBlock name line block).IsTidy := by
  refine ⟨tidyBody_nil, List.forall_mem_cons.mpr ⟨⟨h.nodes, ?_⟩, h.opened⟩⟩
  dsimp only
  rw [hblock.1]
  nofun

theorem IsTidy.afterBody (h : r.IsTidy) {ending : BodyEnd} {inner : OpenBlock}
    {outer : List OpenBlock} (hopened : r.opened = inner :: outer)
    (hends : ending.Adds inner.block r.nodes.reverse) (trims : Bool) :
    (afterBody inner outer trims ending).IsTidy := by
  have hblocks := h.opened
  rw [hopened] at hblocks
  obtain ⟨⟨hbefore, hearlier⟩, houter⟩ := List.forall_mem_cons.mp hblocks
  have hbodies : ∀ body ∈ inner.block.bodies ++ [r.nodes.reverse], TidyBody body := by
    simpa [or_imp, forall_and] using ⟨hearlier, h.nodes.reverse⟩
  cases ending with
  | closed n =>
    obtain ⟨hstructural, hn⟩ := hends
    have htidy : ∀ body ∈ n.bodies, TidyBody body := by
      rcases hn with hn | hn
      · rwa [hn]
      · rw [hn, List.append_cons]
        exact List.forall_mem_append.mpr ⟨hbodies, by simpa using tidyBody_nil⟩
    exact ⟨hbefore.cons (isTidy_of_bodies htidy) (Node.isText_of_isStructural hstructural), houter⟩
  | continued next =>
    refine ⟨tidyBody_nil, List.forall_mem_cons.mpr ⟨⟨hbefore, ?_⟩, houter⟩⟩
    rwa [hends.2]

theorem isTidy_literal (isComment : Bool) (line : Nat) (name : String) (body : List Char) :
    (Node.literal isComment line name body).IsTidy ∧
      (Node.literal isComment line name body).isText = false := by
  cases isComment with
  | true => exact ⟨.mk nofun nofun, rfl⟩
  | false => exact ⟨.mk nofun nofun, rfl⟩

theorem IsTidy.move (h : r.IsTidy) (hmoves : Moves tags r t r')
    (hfresh : t.kind = .text → ReadsMarkup r.opened → EndsFresh r.nodes) : r'.IsTidy := by
  have hblocks := h.opened
  cases hmoves with
  | inside hopened hblock hclosing =>
    rw [hopened] at hblocks
    obtain ⟨⟨hbefore, -⟩, houter⟩ := List.forall_mem_cons.mp hblocks
    exact ⟨h.nodes, List.forall_mem_cons.mpr ⟨⟨hbefore, nofun⟩, houter⟩⟩
  | closesLiteral hopened hblock hclosing =>
    rw [hopened] at hblocks
    obtain ⟨⟨hbefore, -⟩, houter⟩ := List.forall_mem_cons.mp hblocks
    obtain ⟨hnode, htext⟩ := isTidy_literal _ _ _ _
    exact ⟨hbefore.cons hnode htext, houter⟩
  | text hmarkup hkind => exact h.addText (hfresh hkind hmarkup) _ _
  | makes hmarkup hmakes => exact (h.trimAround t).addNode hmakes.isEmpty
  | opens hmarkup htag hkind hstart =>
    exact (h.trimAround t).openBlock (TagKind.isEmpty_of_start hstart) _ _
  | ends hmarkup htag hopened hends =>
    exact (h.trimAround t).afterBody hopened hends.adds _

end Reader

end Stencil
