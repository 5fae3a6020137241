import Stencil.Proofs.Expr.Number
import Stencil.Proofs.Expr.Writing
import Stencil.Proofs.Markup.Readers
import Stencil.Proofs.Template.Marker
import Stencil.Proofs.Template.Written

/-!
# How reading a template ends

A reader takes one token after the other and stops at the first that it can make nothing of. If it
comes to the end, no block may be open any more. So a source is a template, or there is one fault to
report, with the line of a token, or one of its expressions has a whole number with too many digits.
There is no other way in which reading ends, however deep markups are nested.
-/

namespace Stencil

open Text Markup

/-! ## Faults of one token -/

/-- The fault is found in a token: it is not a host that states it, nor the end of the source. -/
def SyntaxFault.isOfToken : SyntaxFault → Bool
  | .unterminated _ => false
  | .stated .. => false
  | _ => true

def IsWrittenIn (ts : List Token) (cs : List Char) : Prop := ∃ t ∈ ts, cs <:+: t.value.toList

theorem IsWrittenIn.of_isInfix {ts : List Token} {cs ds : List Char} (h : IsWrittenIn ts cs)
    (hpart : ds <:+: cs) : IsWrittenIn ts ds := by
  obtain ⟨t, ht, hcs⟩ := h
  exact ⟨t, ht, hpart.trans hcs⟩

/-- Why reading fails for what is written in some tokens. -/
inductive FailsIn (ts : List Token) : Failure SyntaxFault → Prop
  | fault {fault : SyntaxFault} : fault.isOfToken = true → FailsIn ts (.malformed fault)
  | number {digits : List Char} : IsDigits digits → maxDigits < digits.length →
    IsWrittenIn ts digits → FailsIn ts (.overflow (.unreadable digits.length))

/-- If this fails, it does so for what is written in these tokens. -/
abbrev ReadsIn {α : Type} (ts : List Token) (x : Except (Failure SyntaxFault) α) : Prop :=
  Yields (FailsIn ts) (fun _ => True) x

section

variable {ts : List Token} {markup : List Char}

theorem Expr.keeps_number (text : String) (ls : List Lexeme) :
    Keeps text (· ∈ ls)
      (fun failure => ∀ o, failure = .overflow o → ∃ negative whole fraction,
        .number negative whole fraction ∈ ls ∧
          Lexeme.numberValue negative whole fraction = .error o)
      (fun _ => True) (fun _ => True) where
  unexpectedEnd := nofun
  noDots := nofun
  expected _ _ := nofun
  unexpected _ := nofun
  noAttribute _ := nofun
  overflow hmem ho := by
    rintro _ ⟨⟩
    exact ⟨_, _, _, hmem, ho⟩
  nil := trivial
  quoted _ := trivial
  number _ := trivial
  range _ _ := trivial
  name _ _ := trivial
  lookup _ _ := trivial
  namedKey _ := trivial
  computedKey _ := trivial

theorem Expr.readsIn_parse (h : IsWrittenIn ts markup) : ReadsIn ts (Expr.parse markup) := by
  unfold Expr.parse
  dsimp only
  split
  · next ls hls =>
    have hread := (keeps_number (String.ofList (Text.trim markup)) ls).yields_ofLexemes
      fun l hl => hl
    refine hread.mapError fun failure hfailure => ?_
    cases failure with
    | malformed fault => exact FailsIn.fault rfl
    | overflow o =>
      obtain ⟨negative, whole, fraction, hmem, ho⟩ := hfailure o rfl
      obtain ⟨rfl, hlong, rfl⟩ := Lexeme.numberValue_eq_error_iff.mp ho
      obtain ⟨-, hpart, hdigits⟩ := Lexeme.infix_of_mem_all hls hmem
      refine .number hdigits.1 hlong (h.of_isInfix ?_)
      exact (Lexeme.whole_isInfix negative whole none).trans (hpart.trans (Text.trim_isInfix _))
  · exact FailsIn.fault rfl

theorem Markup.keeps_isWrittenIn (ts : List Token) :
    Keeps (IsWrittenIn ts) (FailsIn ts) (fun _ => True) where
  part := IsWrittenIn.of_isInfix
  expression := Expr.readsIn_parse
  assign _ := .fault rfl
  noCondition := .fault rfl
  condition _ _ := .fault rfl

/-- The expressions of a loop are written in these tokens. -/
def Markup.LoopMarkup.IsWrittenIn (m : LoopMarkup) (ts : List Token) : Prop :=
  ∃ cs, m.IsIn cs ∧ Stencil.IsWrittenIn ts cs

theorem readsIn_closeLoop (line : Nat) {m : LoopMarkup} (h : m.IsWrittenIn ts)
    (body otherwise : List Node) : ReadsIn ts (closeLoop line m body otherwise) := by
  obtain ⟨cs, hm, hcs⟩ := h
  exact ((keeps_isWrittenIn ts).yields_loop hm hcs).bind fun head _ => trivial

theorem TagKind.readsIn_start (kind : TagKind) (line : Nat) (name : String)
    (h : IsWrittenIn ts markup) : ReadsIn ts (kind.start line name markup) := by
  cases kind with
  | assign => exact ((keeps_isWrittenIn ts).yields_assignment h).bind fun a _ => trivial
  | inclusion =>
    exact ((keeps_isWrittenIn ts).yields_inclusion h (.fault rfl)).bind fun i _ => trivial
  | inline tag => exact trivial
  | conditional | «unless» =>
    exact ((keeps_isWrittenIn ts).yields_chain h).bind fun c _ => trivial
  | loop =>
    simp only [TagKind.start]
    split
    · exact trivial
    · exact FailsIn.fault rfl
  | ifChanged => exact trivial
  | raw | comment =>
    simp only [TagKind.start, startLiteral]
    split
    · exact trivial
    · exact FailsIn.fault rfl

/-- What is still to be read for the block is written in these tokens. -/
def Block.IsWrittenIn (ts : List Token) : Block → Prop
  | .loop m | .loopOtherwise m _ => m.IsWrittenIn ts
  | _ => True

theorem TagKind.isWrittenIn_of_start {kind : TagKind} {line : Nat} {name : String} {block : Block}
    (h : IsWrittenIn ts markup) (hstart : kind.start line name markup = .ok (.block block)) :
    block.IsWrittenIn ts := by
  cases kind with
  | loop =>
    simp only [TagKind.start] at hstart
    split at hstart
    · next m hm =>
      cases hstart
      exact ⟨markup, LoopMarkup.isIn_of_split? hm, h⟩
    · cases hstart
  | assign | inclusion | conditional | «unless» =>
    obtain ⟨found, -, hfound⟩ := exists_of_bind_eq_ok hstart
    cases hfound <;> trivial
  | inline tag => cases hstart
  | ifChanged =>
    cases hstart
    trivial
  | raw | comment =>
    simp only [TagKind.start, startLiteral] at hstart
    split at hstart
    · cases hstart
      trivial
    · cases hstart

theorem Block.readsIn_of_end? {block : Block} {line : Nat} {body : List Node} {tag : String}
    {ending : Except (Failure SyntaxFault) BodyEnd} (hblock : block.IsWrittenIn ts)
    (h : Stencil.IsWrittenIn ts markup) (hend : block.end? line body tag markup = some ending) :
    ReadsIn ts ending := by
  cases block with
  | branches isNegated earlier condition =>
    simp only [Block.end?] at hend
    split_ifs at hend <;> cases hend
    · exact trivial
    · exact trivial
    · exact ((keeps_isWrittenIn ts).yields_chain h).map fun next _ => trivial
  | otherwise isNegated conditions =>
    simp only [Block.end?] at hend
    split_ifs at hend
    cases hend
    exact trivial
  | loop m =>
    simp only [Block.end?] at hend
    split_ifs at hend <;> cases hend
    · exact readsIn_closeLoop line hblock body []
    · exact trivial
  | loopOtherwise m main =>
    simp only [Block.end?] at hend
    split_ifs at hend
    cases hend
    exact readsIn_closeLoop line hblock main body
  | ifChanged =>
    simp only [Block.end?] at hend
    split_ifs at hend
    cases hend
    exact trivial
  | literal isComment text => cases hend

theorem Block.isWrittenIn_of_end? {block next : Block} {line : Nat} {body : List Node}
    {tag : String} (hblock : block.IsWrittenIn ts)
    (hend : block.end? line body tag markup = some (.ok (.continued next))) :
    next.IsWrittenIn ts := by
  cases block with
  | branches isNegated earlier condition =>
    simp only [Block.end?] at hend
    split_ifs at hend
    · cases hend
    · cases hend
      trivial
    · cases hchain : Chain.parse markup <;> rw [hchain] at hend <;> cases hend
      trivial
  | loop m =>
    simp only [Block.end?] at hend
    split_ifs at hend
    · obtain ⟨head, -, hclosed⟩ := exists_of_bind_eq_ok (Option.some.inj hend)
      cases hclosed
    · cases hend
      exact hblock
  | loopOtherwise m main =>
    simp only [Block.end?] at hend
    split_ifs at hend
    obtain ⟨head, -, hclosed⟩ := exists_of_bind_eq_ok (Option.some.inj hend)
    cases hclosed
  | otherwise isNegated conditions | ifChanged =>
    simp only [Block.end?] at hend
    split_ifs at hend
    cases hend
  | literal isComment text => cases hend

end

namespace Reader

theorem isOfToken_unknownTag (tags : TagTable) (name : String) :
    (unknownTag tags name).isOfToken = true := by
  unfold unknownTag
  split <;> rfl

/-! ## One token -/

section

variable {tags : TagTable} {o : Origin} {r r' : Reader} {ts : List Token} {t : Token}
  {markup : List Char}

/-- An error with a fault and the line of one of these tokens, or a number written in one. -/
inductive Faulty (o : Origin) (ts : List Token) : Failure SyntaxError → Prop
  | fault {fault : SyntaxFault} {u : Token} : u ∈ ts → fault.isOfToken = true →
    Faulty o ts (.malformed (o.error u.line fault))
  | number {digits : List Char} : IsDigits digits → maxDigits < digits.length →
    IsWrittenIn ts digits → Faulty o ts (.overflow (.unreadable digits.length))

/-- Every block that is open was opened by one of these tokens. -/
def OpenedIn (ts : List Token) (r : Reader) : Prop :=
  ∀ b ∈ r.opened, b.block.IsWrittenIn ts ∧
    ∃ t ∈ ts, t.line = b.line ∧ ∃ markup, t.IsTag b.name markup

theorem faulty_of_locate {α : Type} {x : Except (Failure SyntaxFault) α} (hx : ReadsIn ts x)
    (ht : t ∈ ts) {e : Failure SyntaxError} (h : o.locate t.line x = .error e) :
    Faulty o ts e := by
  obtain ⟨failure, rfl, rfl⟩ := mapError_eq_error.mp h
  cases hx with
  | fault hfault => exact .fault ht hfault
  | number hdigits hlong hmem => exact .number hdigits hlong hmem

theorem faulty_of_startTag {name : String} (hmarkup : IsWrittenIn ts markup) (ht : t ∈ ts)
    {e : Failure SyntaxError} (h : startTag tags o r t.line name markup = .error e) :
    Faulty o ts e := by
  unfold startTag at h
  split at h
  · cases h
    exact .fault ht (isOfToken_unknownTag tags name)
  · next kind hkind =>
    obtain hlocate | ⟨start, -, hr⟩ := except_bind_eq_error.mp h
    · exact faulty_of_locate (kind.readsIn_start t.line name hmarkup) ht hlocate
    · cases start <;> cases hr

theorem faulty_of_readTag (hopened : r.OpenedIn ts) (hmarkup : IsWrittenIn ts markup) (ht : t ∈ ts)
    {name : String} {e : Failure SyntaxError}
    (h : readTag tags o r t.line name markup = .error e) : Faulty o ts e := by
  unfold readTag at h
  split at h
  · exact faulty_of_startTag hmarkup ht h
  · next inner outer heq =>
    split at h
    · exact faulty_of_startTag hmarkup ht h
    · next ending hend =>
      -- A tag that ends a body is read for the block, which has the line of its opening tag.
      obtain ⟨hblock, u, hu, hline, -⟩ := hopened inner (heq ▸ List.mem_cons_self)
      obtain hlocate | ⟨ending, -, hr⟩ := except_bind_eq_error.mp h
      · rw [← hline] at hlocate
        exact faulty_of_locate (Block.readsIn_of_end? hblock hmarkup hend) hu hlocate
      · cases ending <;> cases hr

theorem isWrittenIn_markup (ht : t ∈ ts) : IsWrittenIn ts t.markup := ⟨t, ht, t.markup_isInfix⟩

theorem faulty_of_readMarkup (hopened : r.OpenedIn ts) (ht : t ∈ ts) {e : Failure SyntaxError}
    (h : r.readMarkup tags o t = .error e) : Faulty o ts e := by
  unfold readMarkup at h
  split at h
  · cases h
  · obtain hlocate | ⟨e, -, hr⟩ := except_bind_eq_error.mp h
    · exact faulty_of_locate (Expr.readsIn_parse (isWrittenIn_markup ht)) ht hlocate
    · cases hr
  · split at h
    · cases h
      exact .fault ht rfl
    · next name markup hsplit =>
      have hmarkup := (isWrittenIn_markup ht).of_isInfix (parts_of_splitTag? hsplit).2
      exact faulty_of_readTag (r := r.trimAround t) hopened hmarkup ht h

theorem faulty_of_read (hopened : r.OpenedIn ts) (ht : t ∈ ts) {e : Failure SyntaxError}
    (h : r.read tags o t = .error e) : Faulty o ts e := by
  unfold read at h
  split at h
  · split at h
    · cases h
    · exact faulty_of_readMarkup hopened ht h
  · exact faulty_of_readMarkup hopened ht h

/-! ## Open blocks -/

theorem OpenedIn.startTag (h : r.OpenedIn ts) (hmarkup : IsWrittenIn ts markup) (ht : t ∈ ts)
    {name : String} {rest : List Char} (htag : t.IsTag name rest)
    (hread : startTag tags o r t.line name markup = .ok r') : r'.OpenedIn ts := by
  unfold Reader.startTag at hread
  split at hread
  · cases hread
  · next kind hkind =>
    obtain ⟨start, hstart, hr⟩ := exists_of_bind_eq_ok hread
    cases start with
    | node node =>
      cases hr
      exact h
    | block block =>
      cases hr
      have hblock := TagKind.isWrittenIn_of_start hmarkup (mapError_eq_ok.mp hstart)
      rintro b (_ | ⟨_, hb⟩)
      · exact ⟨hblock, t, ht, rfl, rest, htag⟩
      · exact h b hb

theorem OpenedIn.readTag (h : r.OpenedIn ts) (hmarkup : IsWrittenIn ts markup) (ht : t ∈ ts)
    {name : String} {rest : List Char} (htag : t.IsTag name rest)
    (hread : readTag tags o r t.line name markup = .ok r') : r'.OpenedIn ts := by
  unfold Reader.readTag at hread
  split at hread
  · exact h.startTag hmarkup ht htag hread
  · next inner outer heq =>
    obtain ⟨hinner, hopening⟩ := h inner (heq ▸ List.mem_cons_self)
    have houter : ∀ b ∈ outer, _ := fun b hb => h b (heq ▸ List.mem_cons_of_mem inner hb)
    split at hread
    · exact h.startTag hmarkup ht htag hread
    · next ending hend =>
      obtain ⟨result, hresult, hr⟩ := exists_of_bind_eq_ok hread
      cases result with
      | closed node =>
        cases hr
        exact houter
      | continued block =>
        cases hr
        rw [mapError_eq_ok.mp hresult] at hend
        rintro b (_ | ⟨_, hb⟩)
        · exact ⟨Block.isWrittenIn_of_end? hinner hend, hopening⟩
        · exact houter b hb

theorem OpenedIn.readMarkup (h : r.OpenedIn ts) (ht : t ∈ ts)
    (hread : r.readMarkup tags o t = .ok r') : r'.OpenedIn ts := by
  unfold Reader.readMarkup at hread
  split at hread
  · cases hread
    exact h
  · obtain ⟨e, -, hr⟩ := exists_of_bind_eq_ok hread
    cases hr
    exact h
  · next hkind =>
    split at hread
    · cases hread
    · next name markup hsplit =>
      have hmarkup := (isWrittenIn_markup ht).of_isInfix (parts_of_splitTag? hsplit).2
      exact OpenedIn.readTag (r := r.trimAround t) h hmarkup ht ⟨hkind, hsplit⟩ hread

theorem OpenedIn.readLiteral {inner : OpenBlock} {outer : List OpenBlock} (h : r.OpenedIn ts)
    (heq : r.opened = inner :: outer) (isComment : Bool) (body value : List Char) :
    (r.readLiteral inner outer isComment body value).OpenedIn ts := by
  obtain ⟨-, hopening⟩ := h inner (heq ▸ List.mem_cons_self)
  have houter : ∀ b ∈ outer, _ := fun b hb => h b (heq ▸ List.mem_cons_of_mem inner hb)
  unfold Reader.readLiteral
  split
  · rintro b (_ | ⟨_, hb⟩)
    · exact ⟨trivial, hopening⟩
    · exact houter b hb
  · exact houter

theorem OpenedIn.read (h : r.OpenedIn ts) (ht : t ∈ ts) (hread : r.read tags o t = .ok r') :
    r'.OpenedIn ts := by
  unfold Reader.read at hread
  split at hread
  · next inner outer heq =>
    split at hread
    · cases hread
      exact h.readLiteral heq _ _ _
    · exact h.readMarkup ht hread
  · exact h.readMarkup ht hread

theorem OpenedIn.readAll (h : r.OpenedIn ts) {us : List Token} (hus : us ⊆ ts)
    (hread : r.readAll tags o us = .ok r') : r'.OpenedIn ts := by
  induction us generalizing r with
  | nil =>
    cases hread
    exact h
  | cons t us ih =>
    obtain ⟨r₁, hfirst, hrest⟩ := exists_of_bind_eq_ok hread
    have ht : t ∈ ts := hus List.mem_cons_self
    exact ih (h.read ht hfirst) (fun u hu => hus (List.mem_cons_of_mem t hu)) hrest

end

/-! ## All tokens -/

section

variable {tags : TagTable} {o : Origin} {r : Reader} {ts : List Token}
  {e : Failure SyntaxError}

theorem exists_of_readAll_eq_error (h : r.readAll tags o ts = .error e) :
    ∃ before t after r', ts = before ++ t :: after ∧ r.readAll tags o before = .ok r' ∧
      r'.read tags o t = .error e := by
  induction ts generalizing r with
  | nil => cases h
  | cons t ts ih =>
    obtain hfirst | ⟨r₁, hfirst, hrest⟩ := except_bind_eq_error.mp h
    · exact ⟨[], t, ts, r, rfl, rfl, hfirst⟩
    · obtain ⟨before, u, after, r', rfl, hbefore, hu⟩ := ih hrest
      refine ⟨t :: before, u, after, r', rfl, ?_, hu⟩
      rw [readAll, except_bind_of_ok hfirst, hbefore]

end

end Reader

/-! ## The end of a source -/

/-- How the reading of tokens ends, and what comes of it. -/
inductive Origin.Ends (o : Origin) (tags : TagTable) (ts : List Token) :
    Except (Failure SyntaxError) (List Node) → Prop
  | whole {r : Reader} : Reader.start.readAll tags o ts = .ok r → r.opened = [] →
    Ends o tags ts (.ok r.nodes.reverse)
  | unterminated {r : Reader} {inner : OpenBlock} {outer : List OpenBlock} {t : Token}
    {markup : List Char} : Reader.start.readAll tags o ts = .ok r → r.opened = inner :: outer →
    t ∈ ts → t.IsTag inner.name markup →
    Ends o tags ts (.error (.malformed (o.error t.line (.unterminated inner.name))))
  | stopped {before after : List Token} {t u : Token} {r : Reader} {fault : SyntaxFault} :
    ts = before ++ t :: after → Reader.start.readAll tags o before = .ok r →
    r.read tags o t = .error (.malformed (o.error u.line fault)) → u ∈ before ++ [t] →
    fault.isOfToken = true → Ends o tags ts (.error (.malformed (o.error u.line fault)))
  | tooLong {before after : List Token} {t : Token} {r : Reader} {digits : List Char} :
    ts = before ++ t :: after → Reader.start.readAll tags o before = .ok r →
    r.read tags o t = .error (.overflow (.unreadable digits.length)) → IsDigits digits →
    maxDigits < digits.length → IsWrittenIn (before ++ [t]) digits →
    Ends o tags ts (.error (.overflow (.unreadable digits.length)))

theorem Node.ends_ofTokens (tags : TagTable) (o : Origin) (ts : List Token) :
    o.Ends tags ts (Node.ofTokens tags o ts) := by
  have hstart : ∀ us, Reader.start.OpenedIn us := fun _ => nofun
  unfold Node.ofTokens
  cases hread : Reader.start.readAll tags o ts with
  | error e =>
    obtain ⟨before, t, after, r, hcut, hbefore, ht⟩ := Reader.exists_of_readAll_eq_error hread
    have hopened := (hstart (before ++ [t])).readAll (List.subset_append_left before [t]) hbefore
    cases Reader.faulty_of_read hopened (by simp) ht with
    | fault hu hfault => exact .stopped hcut hbefore ht hu hfault
    | number hdigits hlong hmem => exact .tooLong hcut hbefore ht hdigits hlong hmem
  | ok r =>
    rw [except_bind_of_ok rfl]
    unfold Reader.finish
    split
    · next hnone => exact .whole hread hnone
    · next inner outer hopened =>
      have hblocks := (hstart ts).readAll (List.Subset.refl ts) hread
      obtain ⟨-, t, ht, hline, markup, htag⟩ := hblocks inner (hopened ▸ List.mem_cons_self)
      rw [Origin.refuse, ← hline]
      exact .unterminated hread hopened ht htag

/--
Reading a source gives a template, or an error that says what is malformed under the name that was
given, or it fails without one, for a whole number in the source that has too many digits. Nothing
else can fail on the way: every lexeme of a markup is a part of it, and one that is written as a
number is taken for one unless it is such a whole number.
-/
theorem Environment.parse_ends (env : Environment) (source : String) (name file : Option String)
    (isPartial : Bool) :
    ((∃ nodes, Origin.Ends ⟨name, source, isPartial⟩ env.tags (Token.all source) (.ok nodes) ∧
        env.parse source name file isPartial = .ok ⟨nodes, name, file, isPartial, source⟩) ∨
      (∃ e, Origin.Ends ⟨name, source, isPartial⟩ env.tags (Token.all source)
          (.error (.malformed e)) ∧
        env.parse source name file isPartial = .error (.malformed e) ∧
        e.name = name ∧ e.isPartial = isPartial) ∨
      ∃ digits, Origin.Ends ⟨name, source, isPartial⟩ env.tags (Token.all source)
          (.error (.overflow (.unreadable digits.length))) ∧
        env.parse source name file isPartial = .error (.overflow (.unreadable digits.length)) ∧
        IsDigits digits ∧ maxDigits < digits.length ∧ digits <:+: source.toList) ∧
    ∀ (markup : List Char) (ls : List Lexeme), Lexeme.all markup = .ok ls → ∀ l ∈ ls,
      l.chars ≠ [] ∧ l.chars <:+: markup ∧ ∀ negative whole fraction,
        l = .number negative whole fraction →
          (∃ v, Lexeme.numberValue negative whole fraction = .ok v ∧
            readNumeral? l.chars = some v) ∨
          (fraction = none ∧ maxDigits < whole.length ∧ readNumeral? l.chars = none ∧
            Lexeme.numberValue negative whole fraction = .error (.unreadable whole.length)) := by
  constructor
  · have hends := Node.ends_ofTokens env.tags ⟨name, source, isPartial⟩ (Token.all source)
    unfold Environment.parse Template.parse
    cases hnodes : Node.ofTokens env.tags ⟨name, source, isPartial⟩ (Token.all source) with
    | ok nodes =>
      rw [hnodes] at hends
      exact .inl ⟨nodes, hends, rfl⟩
    | error failure =>
      rw [hnodes] at hends
      have hsame := hends
      cases hends with
      | unterminated => exact .inr (.inl ⟨_, hsame, rfl, rfl, rfl⟩)
      | stopped => exact .inr (.inl ⟨_, hsame, rfl, rfl, rfl⟩)
      | tooLong hcut hbefore ht hdigits hlong hwritten =>
        obtain ⟨u, hu, hpart⟩ := hwritten
        have hmem : u ∈ Token.all source := by
          rw [hcut]
          exact (List.prefix_append_right_inj _).mpr ⟨_, rfl⟩ |>.subset hu
        have hwritten := hpart.trans (Token.isInfix_of_mem_all hmem)
        exact .inr (.inr ⟨_, hsame, rfl, hdigits, hlong, hwritten⟩)
  · intro markup ls hall l hl
    obtain ⟨hne, hpart, hdigits⟩ := Lexeme.infix_of_mem_all hall hl
    refine ⟨hne, hpart, ?_⟩
    rintro negative whole fraction rfl
    rw [Lexeme.readNumeral?_chars hdigits]
    cases hvalue : Lexeme.numberValue negative whole fraction with
    | ok v => exact .inl ⟨v, rfl, rfl⟩
    | error o =>
      obtain ⟨hnone, hlong, rfl⟩ := Lexeme.numberValue_eq_error_iff.mp hvalue
      exact .inr ⟨hnone, hlong, rfl, rfl⟩

theorem isBare_of_isDigits {cs : List Char} (h : IsDigits cs) : IsBare cs := by
  intro c hc
  have hdigit := h.2 c hc
  refine ⟨not_isBlank_of_isDigit hdigit, ?_, ?_⟩
  · rintro rfl
    exact absurd hdigit (by decide)
  · rintro rfl
    exact absurd hdigit (by decide)

theorem Environment.parse_of_overflow {cs : List Char} (hbare : IsBare cs) {o : Overflow}
    (h : Expr.parse cs = .error (.overflow o)) (env : Environment) (name file : Option String)
    (isPartial : Bool) :
    env.parse (outputMarker cs) name file isPartial = .error (.overflow o) := by
  have hparse := Template.parse_outputMarker hbare env.tags name file isPartial
  rw [h] at hparse
  simp only [parse, hparse, Failure.map]

/-- A source in which there is nothing to report, and which is no template. -/
theorem Environment.powerOfTen_is_not_parsed :
    maxDigits = 4300 ∧
      Environment.parse ⟨none, false, 100, [], .default, .plain⟩
        (outputMarker (Nat.toDigits 10 (10 ^ maxDigits))) none none false =
          .error (.overflow (.unreadable (maxDigits + 1))) :=
  ⟨rfl, parse_of_overflow (isBare_of_isDigits (isDigits_toDigits (10 ^ maxDigits)))
    Expr.parse_powerOfTen _ none none false⟩

end Stencil
