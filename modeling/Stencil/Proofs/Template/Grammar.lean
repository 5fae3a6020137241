import Stencil.Proofs.Literal.Closing
import Stencil.Proofs.Template.Block

/-!
# The grammar of templates

Which tokens in a row are a template, and which nodes they stand for. The dashes of markers trim the
text around them, so a phrase also says whether the text at its start is trimmed, and whether the
text after it will be.
-/

namespace Stencil

open Markup

/-! ## Tokens -/

namespace Token

/-- A tag with this name, and with this markup after the name. -/
structure IsTag (t : Token) (name : String) (markup : List Char) : Prop where
  kind : t.kind = .tag
  split : splitTag? t.markup = some (name, markup)

/-- What a marker leaves of the nodes before it. -/
def trimBefore (t : Token) (nodes : List Node) : List Node :=
  if t.trimsLeft then (Reader.trimLast nodes.reverse).reverse else nodes

/-- The node of a text, if any of it is left. -/
def textNodes (t : Token) (trims : Bool) : List Node :=
  let cs := if trims then Text.trimStart t.value.toList else t.value.toList
  if cs = [] then [] else [.text t.line (String.ofList cs)]

end Token

/-! ## Phrases -/

/--
What some tokens are: nodes in a row, one node that is no text, nodes with the tag that ends them, a
conditional from the body of a condition on, or a loop from its body on. Text at the start of a
phrase is trimmed where `trims` says so, and text after it where `trimsNext` does.
-/
inductive Phrase
  | body (trims : Bool) (nodes : List Node) (trimsNext : Bool)
  | node (node : Node) (trimsNext : Bool)
  | ended (trims : Bool) (nodes : List Node) (name : String) (markup : List Char)
      (trimsNext : Bool)
  | branches (isNegated : Bool) (condition : Chain) (trims : Bool)
      (branches : List (Chain × List Node)) (otherwise : List Node) (trimsNext : Bool)
  | loopBodies (trims : Bool) (body otherwise : List Node) (trimsNext : Bool)

/-- The tokens of a phrase. -/
inductive Derives : Phrase → List Token → Prop
  | nil {trims : Bool} : Derives (.body trims [] trims) []
  | text {trims trims' : Bool} {nodes : List Node} {ts : List Token} {t : Token} :
    Derives (.body trims nodes trims') ts → t.kind = .text →
    Derives (.body trims (nodes ++ t.textNodes trims') false) (ts ++ [t])
  | snoc {trims trims' trims'' : Bool} {nodes : List Node} {node : Node} {ts us : List Token}
    {t : Token} :
    Derives (.body trims nodes trims') ts → Derives (.node node trims'') (t :: us) →
    Derives (.body trims (t.trimBefore nodes ++ [node]) trims'') (ts ++ t :: us)
  | output {t : Token} {e : Expr} : t.kind = .output → Expr.parse t.markup = .ok e →
    Derives (.node (.output t.line (String.ofList t.markup) e) t.trimsRight) [t]
  | assign {t : Token} {markup : List Char} {assignment : Assignment} :
    t.IsTag "assign" markup → Assignment.parse markup = .ok assignment →
    Derives (.node (.assign t.line assignment) t.trimsRight) [t]
  | inclusion {t : Token} {markup : List Char} {inclusion : Inclusion} :
    t.IsTag "include" markup → Inclusion.parse "include" markup = .ok inclusion →
    Derives (.node (.inclusion t.line inclusion) t.trimsRight) [t]
  | literal {isComment : Bool} {t u : Token} {us : List Token} {leading : List Char} :
    t.IsTag (literalStart isComment) [] →
    (∀ v ∈ us, Literal.closing? (literalStart isComment) v.value.toList = none) →
    Literal.closing? (literalStart isComment) u.value.toList = some leading →
    Derives (.node (.literal isComment t.line (literalStart isComment)
      (Literal.text us ++ leading)) false) (t :: (us ++ [u]))
  | conditional {isNegated : Bool} {t : Token} {markup : List Char} {condition : Chain}
    {branches : List (Chain × List Node)} {otherwise : List Node} {trims : Bool}
    {us : List Token} :
    t.IsTag (conditionalStart isNegated) markup → Chain.parse markup = .ok condition →
    Derives (.branches isNegated condition t.trimsRight branches otherwise trims) us →
    Derives (.node (.conditional t.line isNegated branches otherwise) trims) (t :: us)
  | loop {t : Token} {markup : List Char} {loop : LoopMarkup} {head : LoopHead}
    {body otherwise : List Node} {trims : Bool} {us : List Token} :
    t.IsTag "for" markup → LoopMarkup.split? markup = some loop → loop.parse = .ok head →
    Derives (.loopBodies t.trimsRight body otherwise trims) us →
    Derives (.node (.loop t.line head body otherwise) trims) (t :: us)
  | ifChanged {t : Token} {markup markup' : List Char} {body : List Node} {trims : Bool}
    {us : List Token} :
    t.IsTag "ifchanged" markup →
    Derives (.ended t.trimsRight body "endifchanged" markup' trims) us →
    Derives (.node (.ifChanged t.line body) trims) (t :: us)
  | ended {trims trims' : Bool} {nodes : List Node} {t : Token} {name : String}
    {markup : List Char} {ts : List Token} :
    Derives (.body trims nodes trims') ts → t.IsTag name markup →
    Derives (.ended trims (t.trimBefore nodes) name markup t.trimsRight) (ts ++ [t])
  | lastBranch {isNegated : Bool} {condition : Chain} {trims trims' : Bool} {body : List Node}
    {markup : List Char} {ts : List Token} :
    Derives (.ended trims body (conditionalEnd isNegated) markup trims') ts →
    Derives (.branches isNegated condition trims [(condition, body)] [] trims') ts
  | elseBranch {isNegated : Bool} {condition : Chain} {trims trims' trims'' : Bool}
    {body otherwise : List Node} {markup markup' : List Char} {ts us : List Token} :
    Derives (.ended trims body "else" markup trims') ts →
    Derives (.ended trims' otherwise (conditionalEnd isNegated) markup' trims'') us →
    Derives (.branches isNegated condition trims [(condition, body)] otherwise trims'') (ts ++ us)
  | elsifBranch {isNegated : Bool} {condition next : Chain} {trims trims' trims'' : Bool}
    {body otherwise : List Node} {branches : List (Chain × List Node)} {markup : List Char}
    {ts us : List Token} :
    Derives (.ended trims body "elsif" markup trims') ts → Chain.parse markup = .ok next →
    Derives (.branches isNegated next trims' branches otherwise trims'') us →
    Derives (.branches isNegated condition trims ((condition, body) :: branches) otherwise trims'')
      (ts ++ us)
  | loopBody {trims trims' : Bool} {body : List Node} {markup : List Char} {ts : List Token} :
    Derives (.ended trims body "endfor" markup trims') ts →
    Derives (.loopBodies trims body [] trims') ts
  | elseBody {trims trims' trims'' : Bool} {body otherwise : List Node}
    {markup markup' : List Char} {ts us : List Token} :
    Derives (.ended trims body "else" markup trims') ts →
    Derives (.ended trims' otherwise "endfor" markup' trims'') us →
    Derives (.loopBodies trims body otherwise trims'') (ts ++ us)

/-- The tokens of a template with these nodes. -/
def DerivesTemplate (nodes : List Node) (ts : List Token) : Prop :=
  ∃ trims, Derives (.body false nodes trims) ts

end Stencil
