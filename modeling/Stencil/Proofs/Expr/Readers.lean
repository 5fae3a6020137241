import Stencil.Expr.Parsing

/-!
# What the readers of lexemes return

The readers of an expression call each other, but each puts together what others found, or states a
fault of a lexeme. So what holds of lexemes and is kept when they are put together holds of the
expression, and if there is none, of the reason.
-/

namespace Stencil

/-! ## Outcomes -/

/-- Whichever of the two it is, the result satisfies `P` or the error satisfies `E`. -/
def Yields {ε α : Type} (E : ε → Prop) (P : α → Prop) : Except ε α → Prop
  | .ok a => P a
  | .error e => E e

namespace Yields

variable {ε α β : Type} {E : ε → Prop} {P : α → Prop} {Q : β → Prop} {x : Except ε α}

theorem of_ok (h : Yields E P x) {a : α} (hx : x = .ok a) : P a := by
  subst hx
  exact h

theorem of_error (h : Yields E P x) {e : ε} (hx : x = .error e) : E e := by
  subst hx
  exact h

theorem imp {Q : α → Prop} (hx : Yields E P x) (h : ∀ a, P a → Q a) : Yields E Q x := by
  cases x with
  | ok a => exact h a hx
  | error e => exact hx

theorem bind (hx : Yields E P x) {f : α → Except ε β} (hf : ∀ a, P a → Yields E Q (f a)) :
    Yields E Q (x >>= f) := by
  cases x with
  | ok a => exact hf a hx
  | error e => exact hx

theorem map (hx : Yields E P x) {f : α → β} (hf : ∀ a, P a → Q (f a)) :
    Yields E Q (x.map f) := by
  cases x with
  | ok a => exact hf a hx
  | error e => exact hx

theorem mapError {δ : Type} {D : δ → Prop} (hx : Yields E P x) {f : ε → δ}
    (hf : ∀ e, E e → D (f e)) : Yields D P (x.mapError f) := by
  cases x with
  | ok a => exact hx
  | error e => exact hf e hx

theorem mapM {as : List α} {f : α → Except ε β} (hf : ∀ a ∈ as, Yields E Q (f a)) :
    Yields E (fun bs : List β => ∀ b ∈ bs, Q b) (as.mapM f) := by
  induction as with
  | nil => exact List.forall_mem_nil _
  | cons a as ih =>
    rw [List.mapM_cons]
    refine (hf a List.mem_cons_self).bind fun b hb => ?_
    refine (ih fun a ha => hf a (List.mem_cons_of_mem _ ha)).bind fun bs hbs => ?_
    exact List.forall_mem_cons.mpr ⟨hb, hbs⟩

end Yields

/-! ## Readers -/

namespace Expr

/--
What holds of lexemes, of reasons, of expressions and of keys, such that a reader that is given such
lexemes comes to such an expression or to such a reason.
-/
structure Keeps (markup : String) (L : Lexeme → Prop) (E : Failure ExprFault → Prop)
    (P : Expr → Prop) (K : Key → Prop) : Prop where
  unexpectedEnd : E (.malformed .unexpectedEnd)
  noDots : E (.malformed .noDots)
  expected {wanted l : Lexeme} : wanted = .closeParen ∨ wanted = .closeBracket → L l →
    E (.malformed (.expected wanted.text l.text))
  unexpected {l : Lexeme} : L l → E (.malformed (.unexpected l.text))
  noAttribute {l : Lexeme} : L l → E (.malformed (.noAttribute l.text))
  overflow {negative : Bool} {whole : List Char} {fraction : Option (List Char)} {o : Overflow} :
    L (.number negative whole fraction) →
    Lexeme.numberValue negative whole fraction = .error o → E (.overflow o)
  nil : P (.literal .nil)
  quoted {mark : Char} {body : List Char} : L (.quoted mark body) →
    P (.literal (.text (String.ofList body)))
  number {negative : Bool} {whole : List Char} {fraction : Option (List Char)} {v : Value} :
    Lexeme.numberValue negative whole fraction = .ok v → P (.literal v)
  range {start stop : Expr} : P start → P stop → P (.range start stop)
  name {chars : List Char} {path : List Key} : L (.name chars) → (∀ key ∈ path, K key) →
    P (ofName markup (String.ofList chars) path)
  lookup {root : Expr} {path : List Key} : P root → (∀ key ∈ path, K key) →
    P (.lookup (.computed root) path markup)
  namedKey {chars : List Char} : L (.name chars) → K (.name (String.ofList chars))
  computedKey {e : Expr} : P e → K (.computed e)

namespace Keeps

section

variable {markup : String} {L : Lexeme → Prop} {E : Failure ExprFault → Prop} {P : Expr → Prop}
  {K : Key → Prop} {ts : List Lexeme}

theorem yields_expect (h : Keeps markup L E P K) {wanted : Lexeme}
    (hwanted : wanted = .closeParen ∨ wanted = .closeBracket) (hts : ∀ l ∈ ts, L l) :
    Yields E (fun r : Rest ts => ∀ l ∈ r.1, L l) (expect wanted ts) := by
  cases ts with
  | nil => exact h.unexpectedEnd
  | cons t rest =>
    obtain ⟨ht, hrest⟩ := List.forall_mem_cons.mp hts
    unfold expect
    dsimp only
    split
    · exact hrest
    · exact h.expected hwanted ht

theorem yields_expectDots (h : Keeps markup L E P K) (hts : ∀ l ∈ ts, L l) :
    Yields E (fun r : Rest ts => ∀ l ∈ r.1, L l) (expectDots ts) := by
  cases ts with
  | nil => exact h.unexpectedEnd
  | cons t rest =>
    unfold expectDots
    dsimp only
    split
    · exact (List.forall_mem_cons.mp hts).2
    · exact h.noDots

mutual

theorem yields_readOne (h : Keeps markup L E P K) {ts : List Lexeme} (hts : ∀ l ∈ ts, L l) :
    Yields E (fun r : Expr × Rest ts => P r.1 ∧ ∀ l ∈ r.2.1, L l) (readOne markup ts) := by
  match ts, hts with
  | [], _ =>
    rw [readOne]
    exact h.unexpectedEnd
  | .quoted mark body :: rest, hts =>
    obtain ⟨ht, hrest⟩ := List.forall_mem_cons.mp hts
    rw [readOne]
    exact ⟨h.quoted ht, hrest⟩
  | .number negative whole fraction :: rest, hts =>
    obtain ⟨ht, hrest⟩ := List.forall_mem_cons.mp hts
    rw [readOne]
    split
    · next v hv => exact ⟨h.number hv, hrest⟩
    · next o ho => exact h.overflow ht ho
  | .openParen :: rest, hts =>
    obtain ⟨-, hrest⟩ := List.forall_mem_cons.mp hts
    rw [readOne]
    refine (h.yields_readOne hrest).bind ?_
    rintro ⟨start, r1, h1⟩ ⟨hstart, hr1⟩
    refine Yields.bind (x := expectDots r1) (h.yields_expectDots hr1) ?_
    rintro ⟨r2, h2⟩ hr2
    refine Yields.bind (x := readOne markup r2) (h.yields_readOne hr2) ?_
    rintro ⟨stop, r3, h3⟩ ⟨hstop, hr3⟩
    refine Yields.bind (x := expect .closeParen r3) (h.yields_expect (.inl rfl) hr3) ?_
    rintro ⟨r4, h4⟩ hr4
    exact ⟨h.range hstart hstop, hr4⟩
  | .name chars :: rest, hts =>
    obtain ⟨ht, hrest⟩ := List.forall_mem_cons.mp hts
    rw [readOne]
    refine (h.yields_readPath hrest).bind ?_
    rintro ⟨path, r, hr⟩ ⟨hpath, hmore⟩
    exact ⟨h.name ht hpath, hmore⟩
  | .openBracket :: rest, hts =>
    obtain ⟨-, hrest⟩ := List.forall_mem_cons.mp hts
    rw [readOne]
    refine (h.yields_readOne hrest).bind ?_
    rintro ⟨root, r1, h1⟩ ⟨hroot, hr1⟩
    refine Yields.bind (x := expect .closeBracket r1) (h.yields_expect (.inr rfl) hr1) ?_
    rintro ⟨r2, h2⟩ hr2
    refine Yields.bind (x := readPath markup r2) (h.yields_readPath hr2) ?_
    rintro ⟨path, r3, h3⟩ ⟨hpath, hr3⟩
    exact ⟨h.lookup hroot hpath, hr3⟩
  | .dots :: rest, hts | .dot :: rest, hts | .closeBracket :: rest, hts
  | .closeParen :: rest, hts =>
    unfold readOne
    exact h.unexpected (hts _ List.mem_cons_self)
  termination_by ts.length
  decreasing_by all_goals (simp only [List.length_cons] at *; omega)

theorem yields_readPath (h : Keeps markup L E P K) {ts : List Lexeme} (hts : ∀ l ∈ ts, L l) :
    Yields E (fun r : List Key × RestOrAll ts => (∀ key ∈ r.1, K key) ∧ ∀ l ∈ r.2.1, L l)
      (readPath markup ts) := by
  have hnil : ∀ key ∈ ([] : List Key), K key := List.forall_mem_nil _
  match ts, hts with
  | [.dot], _ =>
    rw [readPath]
    exact h.unexpectedEnd
  | .dot :: .name chars :: rest, hts =>
    obtain ⟨-, hts⟩ := List.forall_mem_cons.mp hts
    obtain ⟨hname, hrest⟩ := List.forall_mem_cons.mp hts
    rw [readPath]
    refine (h.yields_readPath hrest).bind ?_
    rintro ⟨path, r, hr⟩ ⟨hpath, hmore⟩
    exact ⟨List.forall_mem_cons.mpr ⟨h.namedKey hname, hpath⟩, hmore⟩
  | .dot :: .quoted .. :: _, hts | .dot :: .number .. :: _, hts | .dot :: .dots :: _, hts
  | .dot :: .dot :: _, hts | .dot :: .openBracket :: _, hts | .dot :: .closeBracket :: _, hts
  | .dot :: .openParen :: _, hts | .dot :: .closeParen :: _, hts =>
    unfold readPath
    exact h.noAttribute (hts _ (List.mem_cons_of_mem _ List.mem_cons_self))
  | .openBracket :: rest, hts =>
    obtain ⟨-, hrest⟩ := List.forall_mem_cons.mp hts
    rw [readPath]
    refine (h.yields_readOne hrest).bind ?_
    rintro ⟨index, r1, h1⟩ ⟨hindex, hr1⟩
    refine Yields.bind (x := expect .closeBracket r1) (h.yields_expect (.inr rfl) hr1) ?_
    rintro ⟨r2, h2⟩ hr2
    refine Yields.bind (x := readPath markup r2) (h.yields_readPath hr2) ?_
    rintro ⟨path, r3, h3⟩ ⟨hpath, hr3⟩
    exact ⟨List.forall_mem_cons.mpr ⟨h.computedKey hindex, hpath⟩, hr3⟩
  | [], hts | .quoted .. :: _, hts | .number .. :: _, hts | .name _ :: _, hts | .dots :: _, hts
  | .closeBracket :: _, hts | .openParen :: _, hts | .closeParen :: _, hts =>
    unfold readPath
    exact ⟨hnil, hts⟩
  termination_by ts.length
  decreasing_by all_goals (simp only [List.length_cons] at *; omega)

end

theorem yields_ofLexemes (h : Keeps markup L E P K) (hts : ∀ l ∈ ts, L l) :
    Yields E P (ofLexemes markup ts) := by
  unfold ofLexemes
  split
  · exact h.nil
  · refine (h.yields_readOne hts).bind ?_
    rintro ⟨e, rest, _⟩ ⟨he, hrest⟩
    cases rest with
    | nil => exact he
    | cons t _ => exact h.unexpected (hrest t List.mem_cons_self)

end

end Keeps

end Expr

end Stencil
