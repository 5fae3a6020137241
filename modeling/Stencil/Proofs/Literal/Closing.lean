import Stencil.Template.Reading

/-!
# The ends of literal blocks

A literal block ends at the first token that ends in its closing marker. What stands in front of the
marker belongs to the block.
-/

namespace Stencil

namespace Literal

open Text

/-! ## Closing markers -/

theorem markerName_isInfix (inner : List Char) : markerName inner <:+: inner := by
  have hname : ∀ cs : List Char, (trimStart cs).takeWhile isWordChar <:+: cs := fun cs =>
    (List.takeWhile_prefix _).isInfix.trans (List.dropWhile_suffix _).isInfix
  unfold markerName
  split
  · next rest => exact (hname rest).trans (List.suffix_cons '-' rest).isInfix
  · exact hname inner

theorem lastMarker?_isInfix {value leading name : List Char}
    (h : lastMarker? value = some (leading, name)) : name <:+: value := by
  fun_induction lastMarker? value generalizing leading with
  | case1 => contradiction
  | case2 c rest leading' name' heq ih =>
    cases h
    exact List.infix_cons (ih heq)
  | case3 => contradiction
  | case4 inner =>
    rw [← (Prod.mk.inj (Option.some.inj h)).2]
    refine (markerName_isInfix _).trans ?_
    exact (List.take_prefix _ _).isInfix.trans (List.suffix_append ['{', '%'] inner).isInfix
  | case5 => contradiction

theorem lastMarker?_append (before : List Char) {cs leading name : List Char}
    (h : lastMarker? cs = some (leading, name)) :
    lastMarker? (before ++ cs) = some (before ++ leading, name) := by
  induction before with
  | nil => exact h
  | cons c before ih =>
    rw [List.cons_append, lastMarker?.eq_def]
    simp only [ih]
    rfl

theorem closing?_eq_some_iff {block : String} {value leading : List Char} :
    closing? block value = some leading ↔
      ['%', '}'] <:+ value ∧ lastMarker? value = some (leading, "end".toList ++ block.toList) := by
  unfold closing? splitMarker
  rw [← List.isSuffixOf_iff_suffix]
  by_cases hend : ['%', '}'].isSuffixOf value
  · cases lastMarker? value with
    | none => simp [hend]
    | some found =>
      obtain ⟨before, name⟩ := found
      by_cases hname : name = "end".toList ++ block.toList <;> simp [hend, hname, and_comm]
  · simp [hend]

theorem closing?_eq_none {block : String} {value : List Char}
    (h : ¬ "end".toList ++ block.toList <:+: value) : closing? block value = none := by
  apply Option.eq_none_iff_forall_ne_some.mpr
  intro leading hclosing
  apply h
  exact lastMarker?_isInfix (closing?_eq_some_iff.mp hclosing).2

theorem closing?_append (before : List Char) {block : String} {cs leading : List Char}
    (h : closing? block cs = some leading) :
    closing? block (before ++ cs) = some (before ++ leading) := by
  obtain ⟨hsuffix, hlast⟩ := closing?_eq_some_iff.mp h
  refine closing?_eq_some_iff.mpr ⟨?_, lastMarker?_append before hlast⟩
  exact hsuffix.trans (List.suffix_append before cs)

/-! ## Scanning -/

/-- The text of tokens. -/
def text (ts : List Token) : List Char := ts.flatMap fun t => t.value.toList

theorem scan?_of_closing {block : String} {t : Token} {leading : List Char}
    (h : closing? block t.value.toList = some leading) (ts : List Token) :
    scan? block (t :: ts) = some (leading, ts) := by
  rw [scan?, h]

theorem scan?_append {block : String} {ts : List Token}
    (h : ∀ t ∈ ts, closing? block t.value.toList = none) (us : List Token) :
    scan? block (ts ++ us) =
      (scan? block us).map fun (body, after) => (text ts ++ body, after) := by
  induction ts with
  | nil => exact Option.map_id'.symm
  | cons t ts ih =>
    rw [List.cons_append, scan?, h t List.mem_cons_self,
      ih fun u hu => h u (List.mem_cons_of_mem t hu), Option.map_map]
    unfold text
    simp only [List.flatMap_cons, List.append_assoc]
    rfl

end Literal

/-! ## Reading -/

def Node.literal (isComment : Bool) (line : Nat) (name : String) (body : List Char) : Node :=
  if isComment then .comment line name (String.ofList body) else .raw line name (String.ofList body)

theorem Reader.readAll_literal {tags : TagTable} {o : Origin} (nodes : List Node) (name : String)
    (line : Nat) (isComment : Bool) (body : List Char) (before : List Node)
    (outer : List OpenBlock) (trims : Bool) (ts : List Token) :
    readAll tags o ⟨nodes, ⟨name, line, .literal isComment body, before⟩ :: outer, trims⟩ ts =
      match Literal.scan? name ts with
      | some (found, after) =>
        readAll tags o ⟨.literal isComment line name (body ++ found) :: before, outer, false⟩ after
      | none =>
        .ok ⟨nodes, ⟨name, line, .literal isComment (body ++ Literal.text ts), before⟩ :: outer,
          trims⟩ := by
  induction ts generalizing body with
  | nil => simp [readAll, Literal.scan?, Literal.text]
  | cons t ts ih =>
    rw [readAll]
    show readAll tags o (readLiteral _ _ _ isComment body t.value.toList) ts = _
    unfold readLiteral
    cases hclosing : Literal.closing? name t.value.toList with
    | some leading =>
      rw [Literal.scan?_of_closing hclosing]
      rfl
    | none =>
      simp only
      rw [ih, Literal.scan?, hclosing]
      cases Literal.scan? name ts with
      | some found => simp
      | none => simp [Literal.text]

end Stencil
