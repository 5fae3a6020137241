import Stencil.Condition.Basic
import Stencil.Proofs.Expr.Visit

/-!
# The clauses of a condition

Connectors cut the words of a condition into clauses. A chain is read exactly if each clause writes
a condition, and then it has these conditions, with the connectors between them.
-/

namespace Stencil

variable {markup word : List Char} {clause words more : List (List Char)} {c : Condition}

/-! ## One clause -/

/-- One word writes a value, and three words compare two values. -/
inductive Condition.IsWritten : Condition → List (List Char) → Prop
  | value {word : List Char} {e : Expr} : Expr.parse word = .ok e → IsWritten ⟨e, none⟩ [word]
  | test {left operator right : List Char} {l r : Expr} {op : Operator} :
    Expr.parse left = .ok l → Operator.ofText? (String.ofList operator) = some op →
    Expr.parse right = .ok r → IsWritten ⟨l, some (op, r)⟩ [left, operator, right]

theorem Condition.ofWords_eq_ok_iff : ofWords markup clause = .ok c ↔ c.IsWritten clause := by
  constructor
  · intro h
    unfold ofWords at h
    split at h
    · obtain ⟨e, hvalue, h⟩ := exists_of_bind_eq_ok h
      cases h
      exact .value hvalue
    · split at h
      · cases h
      · next op hop =>
        obtain ⟨l, hleft, h⟩ := exists_of_bind_eq_ok h
        obtain ⟨r, hright, h⟩ := exists_of_bind_eq_ok h
        cases h
        exact .test hleft hop hright
    · cases h
  · intro h
    cases h with
    | value hvalue => exact except_bind_of_ok hvalue
    | test hleft hop hright =>
      unfold ofWords
      simp only [hop, hleft, hright]
      rfl

/-! ## All clauses -/

def connector? (word : List Char) : Option Connector := Connector.ofText? (String.ofList word)

/-- No word of a clause is a connector. -/
def IsClause (clause : List (List Char)) : Prop := ∀ word ∈ clause, connector? word = none

/-- The words are clauses that write the conditions, with the connectors between them. -/
inductive AreWritten : Condition → List (Connector × Condition) → List (List Char) → Prop
  | last {c : Condition} {clause : List (List Char)} :
    IsClause clause → c.IsWritten clause → AreWritten c [] clause
  | next {c next : Condition} {rest : List (Connector × Condition)} {connector : Connector}
    {clause more : List (List Char)} {word : List Char} :
    IsClause clause → c.IsWritten clause → connector? word = some connector →
    AreWritten next rest more → AreWritten c ((connector, next) :: rest) (clause ++ word :: more)

theorem AreWritten.ne_nil {rest : List (Connector × Condition)} (h : AreWritten c rest words) :
    words ≠ [] := by
  cases h with
  | last hclause hwritten => cases hwritten <;> nofun
  | next hclause hwritten hword hmore => simp

theorem splitClause_cons_of_none (h : connector? word = none) (words : List (List Char)) :
    splitClause (word :: words) = (word :: (splitClause words).1, (splitClause words).2) := by
  rw [splitClause, show Connector.ofText? (String.ofList word) = none from h]

theorem splitClause_cons_of_some {connector : Connector} (h : connector? word = some connector)
    (words : List (List Char)) : splitClause (word :: words) = ([], some (connector, words)) := by
  rw [splitClause, show Connector.ofText? (String.ofList word) = some connector from h]

theorem IsClause.splitClause_append (h : IsClause clause) (words : List (List Char)) :
    splitClause (clause ++ words) = (clause ++ (splitClause words).1, (splitClause words).2) := by
  induction clause with
  | nil => rfl
  | cons word clause ih =>
    obtain ⟨hword, hclause⟩ := List.forall_mem_cons.mp h
    rw [List.cons_append, splitClause_cons_of_none hword, ih hclause]
    rfl

theorem IsClause.splitClause_eq (h : IsClause clause) : splitClause clause = (clause, none) := by
  have hsplit := h.splitClause_append []
  rwa [List.append_nil, splitClause, List.append_nil] at hsplit

theorem isClause_or_exists (words : List (List Char)) :
    IsClause words ∨ ∃ clause word connector more, words = clause ++ word :: more ∧
      IsClause clause ∧ connector? word = some connector := by
  induction words with
  | nil => exact .inl nofun
  | cons word words ih =>
    cases hword : connector? word with
    | some connector => exact .inr ⟨[], word, connector, words, rfl, nofun, hword⟩
    | none =>
      rcases ih with hclause | ⟨clause, last, connector, more, rfl, hclause, hlast⟩
      · exact .inl (List.forall_mem_cons.mpr ⟨hword, hclause⟩)
      · exact .inr ⟨word :: clause, last, connector, more, rfl,
          List.forall_mem_cons.mpr ⟨hword, hclause⟩, hlast⟩

theorem readClauses_of_isClause (h : IsClause clause) :
    readClauses markup clause = Condition.ofWords markup clause >>= fun c => .ok (c, []) := by
  rw [readClauses]
  split
  · next heq =>
    cases h.splitClause_eq.symm.trans heq
    rfl
  · next heq => cases h.splitClause_eq.symm.trans heq

theorem readClauses_append {connector : Connector} (h : IsClause clause)
    (hword : connector? word = some connector) (more : List (List Char)) :
    readClauses markup (clause ++ word :: more) =
      Condition.ofWords markup clause >>= fun first => readClauses markup more >>= fun found =>
        .ok (first, (connector, found.1) :: found.2) := by
  have hsplit := h.splitClause_append (word :: more)
  rw [splitClause_cons_of_some hword, List.append_nil] at hsplit
  rw [readClauses]
  split
  · next heq => cases hsplit.symm.trans heq
  · next heq =>
    cases hsplit.symm.trans heq
    rfl

theorem areWritten_of_readClauses {words : List (List Char)} {c : Condition}
    {rest : List (Connector × Condition)} (h : readClauses markup words = .ok (c, rest)) :
    AreWritten c rest words := by
  obtain hclause | ⟨clause, word, connector, more, hwords, hclause, hword⟩ :=
    isClause_or_exists words
  · rw [readClauses_of_isClause hclause] at h
    obtain ⟨first, hfirst, h⟩ := exists_of_bind_eq_ok h
    cases h
    exact .last hclause (Condition.ofWords_eq_ok_iff.mp hfirst)
  · rw [hwords, readClauses_append hclause hword] at h
    obtain ⟨first, hfirst, h⟩ := exists_of_bind_eq_ok h
    obtain ⟨found, hfound, h⟩ := exists_of_bind_eq_ok h
    cases h
    rw [hwords]
    exact .next hclause (Condition.ofWords_eq_ok_iff.mp hfirst) hword
      (areWritten_of_readClauses hfound)
  termination_by words.length
  decreasing_by
    rw [hwords, List.length_append, List.length_cons]
    omega

theorem readClauses_eq_ok_iff {rest : List (Connector × Condition)} :
    readClauses markup words = .ok (c, rest) ↔ AreWritten c rest words := by
  refine ⟨areWritten_of_readClauses, fun h => ?_⟩
  induction h with
  | last hclause hwritten =>
    rw [readClauses_of_isClause hclause,
      except_bind_of_ok (Condition.ofWords_eq_ok_iff.mpr hwritten)]
  | next hclause hwritten hword hmore ih =>
    rw [readClauses_append hclause hword,
      except_bind_of_ok (Condition.ofWords_eq_ok_iff.mpr hwritten), except_bind_of_ok ih]

/-! ## Chains -/

/-- A chain is read exactly if the clauses of the text write it. -/
theorem Chain.parse_eq_ok_iff {c : Chain} :
    Chain.parse markup = .ok c ↔ AreWritten c.first c.rest (Markup.words markup) := by
  unfold Chain.parse
  split
  · next hnil =>
    rw [hnil]
    exact iff_of_false nofun fun h => h.ne_nil rfl
  · next hne =>
    rw [← @readClauses_eq_ok_iff markup]
    constructor
    · intro h
      obtain ⟨found, hfound, h⟩ := exists_of_bind_eq_ok h
      cases h
      exact hfound
    · exact fun h => except_bind_of_ok h

theorem AreWritten.connectors_eq {rest : List (Connector × Condition)}
    (h : AreWritten c rest words) : rest.map (·.1) = words.filterMap connector? := by
  induction h with
  | last hclause hwritten => exact (List.filterMap_eq_nil_iff.mpr hclause).symm
  | next hclause hwritten hword hmore ih =>
    rw [List.filterMap_append, List.filterMap_eq_nil_iff.mpr hclause, List.nil_append,
      List.filterMap_cons_some hword, List.map_cons, ih]

end Stencil
