import Stencil.Proofs.Expr.Grammar
import Stencil.Proofs.Value.Unwritable

/-!
# Writing expressions

A tree that no evaluation is needed for, and no computing with floating point, can be written down
lexeme by lexeme. However its lexemes are spaced, reading gives it back, except that every lookup
now carries the text that was read. Only an integer with too many digits cannot be read back.
-/

namespace Stencil

open Text Lexeme

/-! ## Decimal numbers -/

namespace Text

theorem digitValue?_of_isDigit {c : Char} (h : c.isDigit = true) :
    digitValue? c = some (c.toNat - '0'.toNat) := by
  simp only [Char.isDigit, Bool.and_eq_true, decide_eq_true_eq] at h
  have hrange : 0x30 ≤ c.toNat ∧ c.toNat < 0x30 + 10 := ⟨h.1, Nat.lt_succ_of_le h.2⟩
  unfold digitValue? zeroDigits
  rw [List.find?_cons_of_pos (by simp [hrange])]
  rfl

theorem isDigits_toDigits (n : Nat) : IsDigits (Nat.toDigits 10 n) := by
  refine ⟨Nat.toDigits_ne_nil, fun c hc => ?_⟩
  have hdigit := Nat.isDigit_of_mem_toDigits (by decide) (by decide) hc
  rw [isDigit, digitValue?_of_isDigit hdigit]
  rfl

theorem natOfDigits_toDigits (n : Nat) : natOfDigits (Nat.toDigits 10 n) = n := by
  have hvalue : natOfDigits (Nat.toDigits 10 n) = Nat.ofDigitChars 10 (Nat.toDigits 10 n) 0 := by
    refine List.foldl_ext _ _ _ fun value c hc => ?_
    have hdigit := Nat.isDigit_of_mem_toDigits (by decide) (by decide) hc
    rw [digitValue?_of_isDigit hdigit, Option.getD_some]
  rw [hvalue, Nat.ofDigitChars_toDigits (by decide) (by decide)]

end Text

/-! ## Constants -/

namespace Value

/-- The word for a value that has one. -/
def word : Value → String
  | .bool true => "true"
  | .bool false => "false"
  | .nil => "nil"
  | .empty => "empty"
  | .blank => "blank"
  | _ => ""

/-- A text stands between the marks that it does not hold, double ones if it can. -/
def lexeme : Value → Lexeme
  | .int n => .number (n < 0) (Nat.toDigits 10 n.natAbs) none
  | .text s => .quoted (if '"' ∈ s.toList then '\'' else '"') s.toList
  | v => .name v.word.toList

/--
An integer without too many digits, a text that one of the two marks is not in, or a value with a
word for it.
-/
def IsPlain : Value → Prop
  | .int n => n.natAbs < 10 ^ maxDigits
  | .text s => '"' ∉ s.toList ∨ '\'' ∉ s.toList
  | v => keyword? v.word = some v

end Value

namespace Expr

/-! ## Trees -/

mutual

def lexemes : Expr → List Lexeme
  | .literal v => [v.lexeme]
  | .range start stop => .openParen :: (start.lexemes ++ .dots :: (stop.lexemes ++ [.closeParen]))
  | .lookup (.name s) path _ => .name s.toList :: pathLexemes path
  | .lookup (.computed root) path _ =>
    .openBracket :: (root.lexemes ++ .closeBracket :: pathLexemes path)

def pathLexemes : List Key → List Lexeme
  | [] => []
  | .name s :: path => .dot :: .name s.toList :: pathLexemes path
  | .computed e :: path => .openBracket :: (e.lexemes ++ .closeBracket :: pathLexemes path)

end

mutual

/--
The values in the tree are plain, its names are written as names are, and no keyword stands alone as
a lookup.
-/
def IsPlain : Expr → Prop
  | .literal v => v.IsPlain
  | .range start stop => start.IsPlain ∧ stop.IsPlain
  | .lookup (.name s) path _ =>
    IsName s.toList ∧ (path = [] → keyword? s = none) ∧ PathIsPlain path
  | .lookup (.computed root) path _ => root.IsPlain ∧ PathIsPlain path

def PathIsPlain : List Key → Prop
  | [] => True
  | .name s :: path => IsName s.toList ∧ PathIsPlain path
  | .computed e :: path => e.IsPlain ∧ PathIsPlain path

end

mutual

/-- The same tree, as if every lookup in it stood in the markup. -/
def inMarkup (markup : String) : Expr → Expr
  | .literal v => .literal v
  | .range start stop => .range (start.inMarkup markup) (stop.inMarkup markup)
  | .lookup (.name s) path _ => .lookup (.name s) (pathInMarkup markup path) markup
  | .lookup (.computed root) path _ =>
    .lookup (.computed (root.inMarkup markup)) (pathInMarkup markup path) markup

def pathInMarkup (markup : String) : List Key → List Key
  | [] => []
  | .name s :: path => .name s :: pathInMarkup markup path
  | .computed e :: path => .computed (e.inMarkup markup) :: pathInMarkup markup path

end

theorem isPlain_int {n : Int} (h : n.natAbs < 10) : (Expr.literal (.int n)).IsPlain :=
  Nat.lt_of_lt_of_le h (Nat.le_self_pow (by decide) 10)

theorem numberValue_toDigits {n : Int} (h : n.natAbs < 10 ^ maxDigits) :
    numberValue (n < 0) (Nat.toDigits 10 n.natAbs) none = .ok (.int n) := by
  have hlength := length_toDigits_le_maxDigits.mpr h
  simp only [numberValue, natOfDigits?, hlength, if_true, natOfDigits_toDigits, decide_eq_true_eq]
  congr 2
  split <;> omega

theorem isName_of_word {v : Value} (h : keyword? v.word = some v) : IsName v.word.toList := by
  have hname {c : Char} {stem : List Char} (hc : isNameStart c = true)
      (hstem : stem.all isNameChar = true) : IsName (c :: stem) :=
    ⟨c, stem, hc, List.all_eq_true.mp hstem, .inl rfl⟩
  cases v with
  | bool b => cases b with
    | true => exact hname (c := 't') (by decide) (by decide)
    | false => exact hname (c := 'f') (by decide) (by decide)
  | nil => exact hname (c := 'n') (by decide) (by decide)
  | empty => exact hname (c := 'e') (by decide) (by decide)
  | blank => exact hname (c := 'b') (by decide) (by decide)
  | _ => cases h

theorem derives_word {v : Value} (h : keyword? v.word = some v) (markup : String) :
    Derives markup (.expr (.literal v)) [.name v.word.toList] ∧ IsWhole (.name v.word.toList) := by
  have hkeyword : keyword? (String.ofList v.word.toList) = some v := by rwa [String.ofList_toList]
  exact ⟨.keyword hkeyword, isName_of_word h⟩

theorem derives_lexeme {v : Value} (h : v.IsPlain) (markup : String) :
    Derives markup (.expr (.literal v)) [v.lexeme] ∧ v.lexeme.IsWhole := by
  cases v with
  | int n =>
    exact ⟨.number (numberValue_toDigits h), isDigits_toDigits n.natAbs, nofun⟩
  | text s =>
    have hquoted : Derives markup _ _ :=
      .quoted (if '"' ∈ s.toList then '\'' else '"') s.toList
    rw [String.ofList_toList] at hquoted
    refine ⟨hquoted, ?_⟩
    by_cases hmem : '"' ∈ s.toList
    · rw [Value.lexeme, if_pos hmem]
      exact ⟨.inr rfl, h.resolve_left (not_not.mpr hmem)⟩
    · rw [Value.lexeme, if_neg hmem]
      exact ⟨.inl rfl, hmem⟩
  | _ => exact derives_word h markup

mutual

theorem derives_lexemes {e : Expr} (h : e.IsPlain) (markup : String) :
    Derives markup (.expr (e.inMarkup markup)) e.lexemes ∧ ∀ l ∈ e.lexemes, l.IsWhole := by
  match e with
  | .literal v =>
    obtain ⟨hderives, hwhole⟩ := derives_lexeme h markup
    exact ⟨hderives, List.forall_mem_singleton.mpr hwhole⟩
  | .range start stop =>
    obtain ⟨hstart, hstarts⟩ := derives_lexemes h.1 markup
    obtain ⟨hstop, hstops⟩ := derives_lexemes h.2 markup
    refine ⟨.range hstart hstop, ?_⟩
    simp only [lexemes, List.forall_mem_cons, List.forall_mem_append]
    exact ⟨trivial, hstarts, trivial, hstops, trivial, nofun⟩
  | .lookup (.name s) path _ =>
    obtain ⟨hname, hkeyword, hpath⟩ := h
    obtain ⟨hderives, hwhole⟩ := derives_pathLexemes hpath markup
    have hlone : pathInMarkup markup path = [] → keyword? (String.ofList s.toList) = none := by
      intro hnil
      rw [String.ofList_toList]
      cases path with
      | nil => exact hkeyword rfl
      | cons key path => cases key <;> cases hnil
    have hnamed := Derives.named hlone hderives
    rw [String.ofList_toList] at hnamed
    exact ⟨hnamed, List.forall_mem_cons.mpr ⟨hname, hwhole⟩⟩
  | .lookup (.computed root) path _ =>
    obtain ⟨hroot, hpath⟩ := h
    obtain ⟨hroot, hroots⟩ := derives_lexemes hroot markup
    obtain ⟨hpath, hpaths⟩ := derives_pathLexemes hpath markup
    refine ⟨.computed hroot hpath, ?_⟩
    simp only [lexemes, List.forall_mem_cons, List.forall_mem_append]
    exact ⟨trivial, hroots, trivial, hpaths⟩

theorem derives_pathLexemes {path : List Key} (h : PathIsPlain path) (markup : String) :
    Derives markup (.path (pathInMarkup markup path)) (pathLexemes path) ∧
      ∀ l ∈ pathLexemes path, l.IsWhole := by
  match path with
  | [] => exact ⟨.done, nofun⟩
  | .name s :: path =>
    obtain ⟨hname, hpath⟩ := h
    obtain ⟨hderives, hwhole⟩ := derives_pathLexemes hpath markup
    have hmember : Derives markup _ (.dot :: .name s.toList :: pathLexemes path) := .member hderives
    rw [String.ofList_toList] at hmember
    refine ⟨hmember, ?_⟩
    simp only [pathLexemes, List.forall_mem_cons]
    exact ⟨trivial, hname, hwhole⟩
  | .computed e :: path =>
    obtain ⟨he, hpath⟩ := h
    obtain ⟨he, hes⟩ := derives_lexemes he markup
    obtain ⟨hpath, hpaths⟩ := derives_pathLexemes hpath markup
    refine ⟨.index he hpath, ?_⟩
    simp only [pathLexemes, List.forall_mem_cons, List.forall_mem_append]
    exact ⟨trivial, hes, trivial, hpaths⟩

end

theorem all_trim_eq_nil_iff {cs : List Char} : Lexeme.all (trim cs) = .ok [] ↔ AllBlank cs := by
  have hwhole : ∀ l ∈ ([] : List Lexeme), l.IsWhole := nofun
  constructor
  · intro h
    cases (spaced_trim hwhole).mp (spaced_of_all h).1 with
    | nil hblanks => exact hblanks
  · intro h
    exact all_of_spaced ((spaced_trim hwhole).mpr (.nil h)) hwhole .nil

/--
However its lexemes are spaced, the text of a plain tree is read as that tree. And a text that is
not blank is read exactly if its lexemes derive a tree, and then as this tree.
-/
theorem parse_follows_grammar (cs : List Char) :
    (∀ e : Expr, e.IsPlain → Spaced e.lexemes cs →
      parse cs = .ok (e.inMarkup (String.ofList (trim cs)))) ∧
    ∀ e, parse cs = .ok e ↔ AllBlank cs ∧ e = .literal .nil ∨
      ∃ ls, Lexeme.all (trim cs) = .ok ls ∧ Derives (String.ofList (trim cs)) (.expr e) ls := by
  refine ⟨fun e he hspaced => ?_, fun e => ?_⟩
  · obtain ⟨hderives, hwhole⟩ := derives_lexemes he (String.ofList (trim cs))
    exact parse_of_derives hspaced hwhole hderives
  · rw [parse_eq_ok_iff]
    constructor
    · rintro ⟨ls, hall, hread⟩
      rcases ofLexemes_eq_ok_iff.mp hread with ⟨rfl, rfl⟩ | hderives
      · exact .inl ⟨all_trim_eq_nil_iff.mp hall, rfl⟩
      · exact .inr ⟨ls, hall, hderives⟩
    · rintro (⟨hblank, rfl⟩ | ⟨ls, hall, hderives⟩)
      · exact ⟨[], all_trim_eq_nil_iff.mpr hblank, rfl⟩
      · exact ⟨ls, hall, ofLexemes_eq_ok_iff.mpr (.inr hderives)⟩

theorem parse_long_number {n : Int} {cs : List Char} (h : IsLong n)
    (hspaced : Spaced [(Value.int n).lexeme] cs) :
    parse cs = .error (.overflow (.unreadable (Nat.toDigits 10 n.natAbs).length)) := by
  have hwhole : ∀ l ∈ [(Value.int n).lexeme], l.IsWhole :=
    List.forall_mem_singleton.mpr ⟨isDigits_toDigits n.natAbs, nofun⟩
  have hall : Lexeme.all (trim cs) = .ok [(Value.int n).lexeme] :=
    all_of_spaced ((spaced_trim hwhole).mpr hspaced) hwhole (.singleton _)
  have hlength : maxDigits < (Nat.toDigits 10 n.natAbs).length :=
    Nat.lt_of_not_le fun hle => Nat.not_lt_of_le h (length_toDigits_le_maxDigits.mp hle)
  have hvalue : numberValue (n < 0) (Nat.toDigits 10 n.natAbs) none =
      .error (.unreadable (Nat.toDigits 10 n.natAbs).length) :=
    numberValue_eq_error_iff.mpr ⟨rfl, hlength, rfl⟩
  simp only [parse, hall, ofLexemes, Value.lexeme, readOne, hvalue]
  rfl

theorem spaced_toDigits (n : Nat) : Spaced [(Value.int n).lexeme] (Nat.toDigits 10 n) := by
  have hchars : (Value.int n).lexeme.chars = Nat.toDigits 10 n := by
    simp [Value.lexeme, chars]
  have hspaced : Spaced [(Value.int n).lexeme] ([] ++ ((Value.int n).lexeme.chars ++ [])) :=
    .cons (List.forall_mem_nil _) (.nil (List.forall_mem_nil _))
  rwa [hchars, List.append_nil, List.nil_append] at hspaced

theorem length_toDigits_ten_pow (d : Nat) : (Nat.toDigits 10 (10 ^ d)).length = d + 1 := by
  refine Nat.le_antisymm ?_ (Nat.lt_of_not_le fun hle => ?_)
  · exact (Nat.length_toDigits_le_iff (by decide) (Nat.succ_pos d)).mpr
      (Nat.pow_lt_pow_right (by decide) (Nat.lt_succ_self d))
  · cases d with
    | zero => simp at hle
    | succ d => exact Nat.lt_irrefl _ ((Nat.length_toDigits_le_iff (by decide) d.succ_pos).mp hle)

theorem parse_powerOfTen :
    parse (Nat.toDigits 10 (10 ^ maxDigits)) =
      .error (.overflow (.unreadable (maxDigits + 1))) := by
  have hspaced := spaced_toDigits (10 ^ maxDigits)
  have hparse := parse_long_number (Int.natAbs_natCast (10 ^ maxDigits)).ge hspaced
  rwa [Int.natAbs_natCast, length_toDigits_ten_pow] at hparse

/-- The smallest number that is not read back. -/
theorem powerOfTen_is_not_read_back :
    maxDigits = 4300 ∧
      Spaced (literal (.int (10 ^ maxDigits : Nat))).lexemes (Nat.toDigits 10 (10 ^ maxDigits)) ∧
      parse (Nat.toDigits 10 (10 ^ maxDigits)) =
        .error (.overflow (.unreadable (maxDigits + 1))) :=
  ⟨rfl, spaced_toDigits (10 ^ maxDigits), parse_powerOfTen⟩

end Expr

end Stencil
