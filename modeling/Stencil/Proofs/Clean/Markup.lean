import Stencil.Proofs.Clean.Evaluation
import Stencil.Proofs.Expr.Number
import Stencil.Proofs.Expr.Visit
import Stencil.Proofs.Markup.Readers

/-!
# Markup without escapes

What is read from a markup is made of pieces of it, and a fault quotes such pieces. So if there is
no escape in a markup, there is none in the expression, the chain or the directive that it writes,
nor in the fault that is found in it.
-/

namespace Stencil

open Text Markup

/-! ## Lexemes -/

def Lexeme.Clean (l : Lexeme) : Prop := NoEscape l.chars

theorem Lexeme.Clean.text {l : Lexeme} (h : l.Clean) : Text.Clean l.text := clean_ofList.mpr h

theorem Lexeme.clean_closeParen : Lexeme.closeParen.Clean := by
  show NoEscape [')']
  decide

theorem Lexeme.clean_closeBracket : Lexeme.closeBracket.Clean := by
  show NoEscape [']']
  decide

theorem Lexeme.clean_numberValue {negative : Bool} {whole : List Char}
    {fraction : Option (List Char)} {v : Value} (h : numberValue negative whole fraction = .ok v) :
    v.Clean := by
  cases fraction with
  | none =>
    unfold numberValue at h
    dsimp only at h
    split at h <;> cases h
    exact .int _
  | some digits =>
    cases h
    exact .float _

theorem Lexeme.eq_of_all_eq_error {cs : List Char} {fault : ExprFault}
    (h : all cs = .error fault) : ∃ c, fault = .unexpectedChar c := by
  fun_induction all cs with
  | case1 => cases h
  | case2 cs c more _ _ =>
    cases h
    exact ⟨c, rfl⟩
  | case3 cs c more _ l rest _ ih =>
    obtain h | ⟨ls, -, h⟩ := except_bind_eq_error.mp h
    · exact ih h
    · cases h

theorem Lexeme.yields_all {cs : List Char} (h : NoEscape cs) :
    Yields ExprFault.Clean (fun ls : List Lexeme => ∀ l ∈ ls, l.Clean) (all cs) := by
  cases hall : all cs with
  | ok ls =>
    intro l hl
    obtain ⟨-, hpart, -⟩ := infix_of_mem_all hall hl
    exact h.of_subset hpart.subset
  | error fault =>
    obtain ⟨c, rfl⟩ := eq_of_all_eq_error hall
    exact List.forall_mem_nil _

/-! ## Expressions -/

/-- An overflow quotes nothing. -/
def Failure.Clean {ε : Type} (P : ε → Prop) : Failure ε → Prop
  | .malformed fault => P fault
  | .overflow _ => True

/-- What is read satisfies `P`, or the fault that is found has no escape in it. -/
abbrev ReadsClean {α : Type} (P : α → Prop) (x : Except (Failure SyntaxFault) α) : Prop :=
  Yields (Failure.Clean SyntaxFault.Clean) P x

namespace Expr

theorem clean_ofName {markup name : String} (hmarkup : Text.Clean markup) (hname : Text.Clean name)
    {path : List Key} (hpath : ∀ key ∈ path, key.Clean) : (ofName markup name path).Clean := by
  unfold ofName
  split
  · next v hv =>
    unfold keyword? at hv
    split at hv <;> cases hv <;> exact .literal (by constructor)
  · exact .lookup (.name hname) hpath hmarkup

theorem keeps_clean {markup : String} (hmarkup : Text.Clean markup) :
    Keeps markup Lexeme.Clean (Failure.Clean ExprFault.Clean) Expr.Clean Key.Clean where
  unexpectedEnd := List.forall_mem_nil _
  noDots := List.forall_mem_nil _
  expected hwanted hl := by
    refine forall_clean_pair.mpr ⟨?_, hl.text⟩
    rcases hwanted with rfl | rfl
    · exact Lexeme.clean_closeParen.text
    · exact Lexeme.clean_closeBracket.text
  unexpected hl := List.forall_mem_singleton.mpr hl.text
  noAttribute hl := List.forall_mem_singleton.mpr hl.text
  overflow _ _ := trivial
  nil := .literal .nil
  quoted {mark body} hl := by
    have hbody : NoEscape body := NoEscape.of_subset hl (by simp [Lexeme.chars])
    exact .literal (.text (clean_ofList.mpr hbody))
  number hv := .literal (Lexeme.clean_numberValue hv)
  range := .range
  name hl hpath := clean_ofName hmarkup hl.text hpath
  lookup hroot hpath := .lookup (.computed hroot) hpath hmarkup
  namedKey hl := .name hl.text
  computedKey := .computed

end Expr

theorem Expr.yields_parse {markup : List Char} (h : NoEscape markup) :
    ReadsClean Expr.Clean (Expr.parse markup) := by
  have htrim := h.trim
  have htext : Text.Clean (String.ofList (trim markup)) := clean_ofList.mpr htrim
  have hlexemes := Lexeme.yields_all htrim
  unfold Expr.parse
  dsimp only
  split
  · next ls hls =>
    refine ((Expr.keeps_clean htext).yields_ofLexemes (hlexemes.of_ok hls)).mapError ?_
    intro failure hfailure
    cases failure with
    | malformed fault => exact List.forall_mem_cons.mpr ⟨htext, hfailure⟩
    | overflow => trivial
  · next fault hfault =>
    exact List.forall_mem_cons.mpr ⟨htext, hlexemes.of_error hfault⟩

namespace Markup

theorem keeps_clean : Keeps NoEscape (Failure.Clean SyntaxFault.Clean) Expr.Clean where
  part := NoEscape.of_isInfix
  expression := Expr.yields_parse
  assign h := List.forall_mem_singleton.mpr (clean_ofList.mpr h)
  noCondition := List.forall_mem_nil _
  condition hclause h := by
    refine forall_clean_pair.mpr ⟨Text.Clean.intercalate (by decide) fun text htext => ?_, ?_⟩
    · obtain ⟨word, hword, rfl⟩ := List.mem_map.mp htext
      exact clean_ofList.mpr (hclause word hword)
    · exact clean_ofList.mpr h

/-! ## Assignments -/

structure Assignment.Clean (a : Assignment) : Prop where
  target : Text.Clean a.target
  source : a.source.Clean

theorem Assignment.yields_parse {markup : List Char} (h : NoEscape markup) :
    ReadsClean Assignment.Clean (Assignment.parse markup) :=
  (keeps_clean.yields_assignment h).imp fun _ ⟨htarget, hsource⟩ => ⟨htarget, hsource⟩

/-! ## Loops -/

/-- What a loop says of itself is written in a text without escapes. -/
def LoopMarkup.Clean (m : LoopMarkup) : Prop := ∃ markup, m.IsIn markup ∧ NoEscape markup

structure LoopHead.Clean (head : LoopHead) : Prop where
  item : Text.Clean head.item
  collection : head.collection.Clean
  limit : ∀ e ∈ head.limit, e.Clean
  offset : ∀ e ∈ head.offset, e.Clean

theorem LoopMarkup.yields_parse {m : LoopMarkup} (h : m.Clean) :
    ReadsClean LoopHead.Clean m.parse := by
  obtain ⟨markup, hm, hmarkup⟩ := h
  exact (keeps_clean.yields_loop hm hmarkup).imp fun _ ⟨hitem, hcollection, hlimit, hoffset⟩ =>
    ⟨hitem, hcollection, hlimit, hoffset⟩

/-! ## Inclusions -/

structure Inclusion.Clean (i : Inclusion) : Prop where
  template : i.template.Clean
  bound : ∀ e ∈ i.bound, e.Clean
  attributes : ∀ a ∈ i.attributes, Text.Clean a.1 ∧ a.2.Clean
  markup : Text.Clean i.markup

theorem Inclusion.yields_parse {tag : String} (htag : Text.Clean tag) {markup : List Char}
    (h : NoEscape markup) : ReadsClean Inclusion.Clean (Inclusion.parse tag markup) := by
  have hmarkup : Text.Clean (String.ofList markup) := clean_ofList.mpr h
  have hinvalid : (SyntaxFault.inclusion tag (String.ofList markup)).Clean :=
    forall_clean_pair.mpr ⟨htag, hmarkup⟩
  refine (keeps_clean.yields_inclusion h hinvalid).imp ?_
  rintro i ⟨htemplate, hbound, hattributes, heq⟩
  exact ⟨htemplate, hbound, hattributes, heq ▸ hmarkup⟩

end Markup

/-! ## Chains -/

theorem Chain.yields_parse {markup : List Char} (h : NoEscape markup) :
    ReadsClean Chain.Clean (Chain.parse markup) := by
  refine (keeps_clean.yields_chain h).imp fun chain hchain => ?_
  obtain ⟨hfirst, hrest⟩ := List.forall_mem_cons.mp hchain
  refine ⟨⟨hfirst.1, hfirst.2⟩, fun link hlink => ?_⟩
  obtain ⟨hleft, hright⟩ := hrest link.2 (List.mem_map_of_mem hlink)
  exact ⟨hleft, hright⟩

end Stencil
