import Mathlib.Data.List.Chain
import Stencil.Proofs.Expr.Number
import Stencil.Proofs.Text.Blank

/-!
# Lexemes in a text

A text in which lexemes stand one after the other, with blanks between them or none, is read as
these lexemes, as long as none runs on into the next. And whatever is read stands in the text so.
-/

namespace Stencil

open Text

namespace Text

/-! ## Where a run of characters stops -/

def Halts (p : Char → Bool) (rest : List Char) : Prop := ∀ c ∈ rest.head?, p c = false

section

variable {p : Char → Bool} {run rest : List Char}

theorem takeWhile_append_of_halts (hrun : ∀ c ∈ run, p c = true) (hrest : Halts p rest) :
    (run ++ rest).takeWhile p = run := by
  rw [List.takeWhile_append_of_pos hrun]
  cases rest with
  | nil => simp
  | cons c more => rw [List.takeWhile_cons_of_neg (by simp [hrest c rfl]), List.append_nil]

theorem dropWhile_append_of_halts (hrun : ∀ c ∈ run, p c = true) (hrest : Halts p rest) :
    (run ++ rest).dropWhile p = rest := by
  rw [List.dropWhile_append_of_pos hrun]
  cases rest with
  | nil => rfl
  | cons c more => rw [List.dropWhile_cons_of_neg (by simp [hrest c rfl])]

end

theorem IsDigits.exists_concat {cs : List Char} (h : IsDigits cs) :
    ∃ before c, cs = before ++ [c] ∧ isDigit c = true := by
  obtain ⟨hne, hdigits⟩ := h
  obtain ⟨before, c, rfl⟩ := (List.eq_nil_or_concat cs).resolve_left hne
  exact ⟨before, c, by simp, hdigits c (by simp)⟩

end Text

namespace Lexeme

/-! ## Whole lexemes -/

/-- A letter or an underscore, then what names are made of, and a question mark or none. -/
def IsName (chars : List Char) : Prop :=
  ∃ c stem, isNameStart c = true ∧ (∀ d ∈ stem, isNameChar d = true) ∧
    (chars = c :: stem ∨ chars = c :: stem ++ ['?'])

/-- The lexeme is written as lexemes of its kind are. -/
def IsWhole : Lexeme → Prop
  | .quoted mark body => (mark = '"' ∨ mark = '\'') ∧ mark ∉ body
  | .name chars => IsName chars
  | l => l.HasDigits

theorem not_isBlank_of_isNameStart {c : Char} (h : isNameStart c = true) : isBlank c = false :=
  not_isBlank_of_isNameChar (isNameChar_of_isNameStart h)

theorem exists_first {l : Lexeme} (h : l.IsWhole) :
    ∃ c more, l.chars = c :: more ∧ isBlank c = false := by
  cases l with
  | quoted mark body =>
    obtain ⟨rfl | rfl, -⟩ := h
    · exact ⟨_, _, rfl, rfl⟩
    · exact ⟨_, _, rfl, rfl⟩
  | number negative whole fraction =>
    cases negative with
    | true => exact ⟨_, _, rfl, rfl⟩
    | false =>
      obtain ⟨c, more, rfl, hc⟩ := IsDigits.exists_cons h.1
      exact ⟨c, _, rfl, not_isBlank_of_isDigit hc⟩
  | name chars =>
    obtain ⟨c, stem, hc, -, rfl | rfl⟩ := h
    · exact ⟨c, _, rfl, not_isBlank_of_isNameStart hc⟩
    · exact ⟨c, _, rfl, not_isBlank_of_isNameStart hc⟩
  | _ => exact ⟨_, _, rfl, rfl⟩

theorem exists_last {l : Lexeme} (h : l.IsWhole) :
    ∃ before c, l.chars = before ++ [c] ∧ isBlank c = false := by
  cases l with
  | quoted mark body =>
    obtain ⟨rfl | rfl, -⟩ := h
    · exact ⟨'"' :: body, '"', rfl, rfl⟩
    · exact ⟨'\'' :: body, '\'', rfl, rfl⟩
  | number negative whole fraction =>
    obtain ⟨hwhole, hfraction⟩ := h
    cases fraction with
    | none =>
      obtain ⟨before, c, rfl, hc⟩ := hwhole.exists_concat
      exact ⟨(if negative then ['-'] else []) ++ before, c, by simp [chars],
        not_isBlank_of_isDigit hc⟩
    | some digits =>
      obtain ⟨before, c, rfl, hc⟩ := (hfraction digits rfl).exists_concat
      exact ⟨(if negative then ['-'] else []) ++ whole ++ '.' :: before, c, by simp [chars],
        not_isBlank_of_isDigit hc⟩
  | name chars =>
    obtain ⟨c, stem, hc, hstem, rfl | rfl⟩ := h
    · obtain rfl | ⟨before, d, rfl⟩ := List.eq_nil_or_concat stem
      · exact ⟨[], c, rfl, not_isBlank_of_isNameStart hc⟩
      · exact ⟨c :: before, d, by simp [Lexeme.chars],
          not_isBlank_of_isNameChar (hstem d (by simp))⟩
    · exact ⟨c :: stem, '?', rfl, rfl⟩
  | dots => exact ⟨['.'], '.', rfl, rfl⟩
  | _ => exact ⟨[], _, rfl, rfl⟩

/-! ## What may follow -/

/-- The text that follows a lexeme does not go on with it. -/
def EndsBefore : Lexeme → List Char → Prop
  | .number _ _ none, rest =>
    Halts isDigit rest ∧ ∀ c more, rest = '.' :: c :: more → isDigit c = false
  | .number _ _ (some _), rest => Halts isDigit rest
  | .name _, rest => Halts (fun c => isNameChar c || c == '?') rest
  | .dot, rest => Halts (· == '.') rest
  | _, _ => True

section

variable {rest : List Char}

theorem readNumber_of_isDigits (negative : Bool) {whole : List Char} (hwhole : IsDigits whole)
    (hrest : EndsBefore (.number negative whole none) rest) :
    readNumber negative (whole ++ rest) = (.number negative whole none, rest) := by
  obtain ⟨hhalts, hpoint⟩ := hrest
  unfold readNumber
  rw [takeWhile_append_of_halts hwhole.2 hhalts, dropWhile_append_of_halts hwhole.2 hhalts]
  split
  · next d more => rw [if_neg (by simp [hpoint d more rfl])]
  · rfl

theorem readNumber_of_fraction (negative : Bool) {whole fraction : List Char}
    (hwhole : IsDigits whole) (hfraction : IsDigits fraction) (hrest : Halts isDigit rest) :
    readNumber negative (whole ++ '.' :: fraction ++ rest) =
      (.number negative whole (some fraction), rest) := by
  have hpoint : Halts isDigit ('.' :: fraction ++ rest) := by
    rintro c ⟨⟩
    decide +kernel
  obtain ⟨d, more, rfl, hd⟩ := hfraction.exists_cons
  have hmore : ∀ c ∈ more, isDigit c = true := fun c hc => hfraction.2 c (List.mem_cons_of_mem d hc)
  unfold readNumber
  rw [List.append_assoc, takeWhile_append_of_halts hwhole.2 hpoint,
    dropWhile_append_of_halts hwhole.2 hpoint]
  simp only [List.cons_append, hd, if_true, takeWhile_append_of_halts hmore hrest,
    dropWhile_append_of_halts hmore hrest]

theorem readName_of_isName {chars : List Char} (h : IsName chars)
    (hrest : EndsBefore (.name chars) rest) :
    readName (chars ++ rest) = (.name chars, rest) := by
  have hstart : ∀ {c stem}, isNameStart c = true → (∀ d ∈ stem, isNameChar d = true) →
      ∀ d ∈ c :: stem, isNameChar d = true := fun hc hstem =>
    List.forall_mem_cons.mpr ⟨isNameChar_of_isNameStart hc, hstem⟩
  obtain ⟨c, stem, hc, hstem, rfl | rfl⟩ := h
  · have hhalts : Halts isNameChar rest := fun d hd => (Bool.or_eq_false_iff.mp (hrest d hd)).1
    unfold readName
    rw [takeWhile_append_of_halts (hstart hc hstem) hhalts,
      dropWhile_append_of_halts (hstart hc hstem) hhalts]
    split
    · next more =>
      have hmark := hrest '?' rfl
      simp at hmark
    · rfl
  · have hhalts : Halts isNameChar ('?' :: rest) := by
      rintro d ⟨⟩
      decide +kernel
    unfold readName
    rw [List.append_assoc, List.singleton_append,
      takeWhile_append_of_halts (hstart hc hstem) hhalts,
      dropWhile_append_of_halts (hstart hc hstem) hhalts]
    rfl

theorem readQuoted?_of_not_mem {mark : Char} {body : List Char} (h : mark ∉ body) :
    readQuoted? mark (body ++ mark :: rest) = some (.quoted mark body, rest) := by
  have hbody : ∀ c ∈ body, decide (c ≠ mark) = true := fun c hc =>
    decide_eq_true (ne_of_mem_of_not_mem hc h)
  have hhalts : Halts (fun c => decide (c ≠ mark)) (mark :: rest) := by
    rintro c ⟨⟩
    simp
  unfold readQuoted?
  rw [takeWhile_append_of_halts hbody hhalts, dropWhile_append_of_halts hbody hhalts]

theorem read?_of_ne_mark {c : Char} (h : c ∉ ['"', '\'', '.', '[', ']', '(', ')', '-'])
    (cs : List Char) :
    read? (c :: cs) =
      if isDigit c then some (readNumber false (c :: cs))
      else if isNameStart c then some (readName (c :: cs)) else none := by
  simp only [List.mem_cons, List.not_mem_nil, or_false, not_or] at h
  unfold read?
  split <;> simp_all

theorem read?_of_isDigit {c : Char} (h : isDigit c = true) (cs : List Char) :
    read? (c :: cs) = some (readNumber false (c :: cs)) := by
  have hmark : c ∉ ['"', '\'', '.', '[', ']', '(', ')', '-'] := fun hmem => by
    have hnone : ['"', '\'', '.', '[', ']', '(', ')', '-'].all (!isDigit ·) = true := by
      decide +kernel
    simpa [h] using List.all_eq_true.mp hnone c hmem
  rw [read?_of_ne_mark hmark, if_pos h]

theorem read?_of_isNameStart {c : Char} (h : isNameStart c = true) (cs : List Char) :
    read? (c :: cs) = some (readName (c :: cs)) := by
  have hmark : c ∉ ['"', '\'', '.', '[', ']', '(', ')', '-'] := fun hmem => by
    have hnone : ['"', '\'', '.', '[', ']', '(', ')', '-'].all (!isNameStart ·) = true := by
      decide +kernel
    simpa [h] using List.all_eq_true.mp hnone c hmem
  have hdigit : isDigit c = false := by
    by_contra hc
    have hother : (!isNameStart c) = true :=
      forall_isDigit (p := fun c => !isNameStart c) (by decide +kernel) (by simpa using hc)
    simp [h] at hother
  rw [read?_of_ne_mark hmark, hdigit, if_neg Bool.false_ne_true, if_pos h]

theorem read?_of_digits (negative : Bool) {whole more : List Char} (h : IsDigits whole) :
    read? ((if negative then ['-'] else []) ++ (whole ++ more)) =
      some (readNumber negative (whole ++ more)) := by
  obtain ⟨c, digits, rfl, hc⟩ := h.exists_cons
  cases negative with
  | false => exact read?_of_isDigit hc _
  | true => exact if_pos hc

theorem read?_of_isWhole {l : Lexeme} (h : l.IsWhole) (hrest : l.EndsBefore rest) :
    read? (l.chars ++ rest) = some (l, rest) := by
  cases l with
  | quoted mark body =>
    obtain ⟨rfl | rfl, hbody⟩ := h
    · simpa [chars, read?] using readQuoted?_of_not_mem hbody
    · simpa [chars, read?] using readQuoted?_of_not_mem hbody
  | number negative whole fraction =>
    obtain ⟨hwhole, hfraction⟩ := h
    cases fraction with
    | none =>
      simp only [chars, List.append_nil, List.append_assoc]
      rw [read?_of_digits negative hwhole, readNumber_of_isDigits negative hwhole hrest]
    | some digits =>
      have hread := readNumber_of_fraction negative hwhole (hfraction digits rfl) hrest
      simp only [chars, List.append_assoc] at hread ⊢
      rw [read?_of_digits negative hwhole, hread]
  | name chars =>
    have hread := readName_of_isName h hrest
    obtain ⟨c, stem, hc, -, rfl | rfl⟩ := h
    · rw [← hread]
      exact read?_of_isNameStart hc _
    · rw [← hread]
      exact read?_of_isNameStart hc _
  | dot =>
    cases rest with
    | nil => rfl
    | cons c more =>
      have hc : c ≠ '.' := by simpa using hrest c rfl
      simp [chars, read?, hc]
  | _ => rfl

theorem isWhole_of_readQuoted? {mark : Char} (hmark : mark = '"' \/ mark = '\'') {cs : List Char}
    {l : Lexeme} (h : readQuoted? mark cs = some (l, rest)) : l.IsWhole := by
  unfold readQuoted? at h
  split at h
  · cases h
  · cases h
    exact ⟨hmark, fun hmem => by simpa using List.mem_takeWhile_imp hmem⟩

theorem isWhole_readName {c : Char} (h : isNameStart c = true) (cs : List Char) :
    (readName (c :: cs)).1.IsWhole := by
  have htake : (c :: cs).takeWhile isNameChar = c :: cs.takeWhile isNameChar :=
    List.takeWhile_cons_of_pos (isNameChar_of_isNameStart h)
  have hstem : ∀ d ∈ cs.takeWhile isNameChar, isNameChar d = true := fun d hd =>
    List.mem_takeWhile_imp hd
  unfold readName
  rw [htake]
  split
  · exact ⟨c, _, h, hstem, .inr rfl⟩
  · exact ⟨c, _, h, hstem, .inl rfl⟩

theorem isWhole_readNumber (negative : Bool) {c : Char} (h : isDigit c = true) (cs : List Char) :
    (readNumber negative (c :: cs)).1.IsWhole := by
  have hdigits := hasDigits_readNumber negative h cs
  have hnumber : ∃ whole fraction,
      (readNumber negative (c :: cs)).1 = .number negative whole fraction := by
    unfold readNumber
    split
    · split
      · exact ⟨_, _, rfl⟩
      · exact ⟨_, _, rfl⟩
    · exact ⟨_, _, rfl⟩
  obtain ⟨whole, fraction, heq⟩ := hnumber
  rw [heq] at hdigits ⊢
  exact hdigits

theorem isWhole_of_read? {cs : List Char} {l : Lexeme} (h : read? cs = some (l, rest)) :
    l.IsWhole := by
  unfold read? at h
  split at h
  case h_1 => cases h
  case h_2 => exact isWhole_of_readQuoted? (.inl rfl) h
  case h_3 => exact isWhole_of_readQuoted? (.inr rfl) h
  case h_10 c more =>
    split at h
    · next hc =>
      have hnumber := isWhole_readNumber true hc more
      rwa [Option.some.inj h] at hnumber
    · cases h
  case h_11 c more _ _ _ _ _ _ _ _ _ =>
    split at h
    · next hc =>
      have hnumber := isWhole_readNumber false hc more
      rwa [Option.some.inj h] at hnumber
    · split at h
      · next hc =>
        have hname := isWhole_readName hc more
        rwa [Option.some.inj h] at hname
      · cases h
  all_goals
    cases h
    trivial

end

/-! ## Lexemes one after the other -/

/-- The texts of the lexemes, with blanks before, between and after them, or none. -/
inductive Spaced : List Lexeme → List Char → Prop
  | nil {blanks : List Char} : AllBlank blanks → Spaced [] blanks
  | cons {blanks cs : List Char} {l : Lexeme} {ls : List Lexeme} :
      AllBlank blanks → Spaced ls cs → Spaced (l :: ls) (blanks ++ (l.chars ++ cs))

/-- The first lexeme ends where the second one starts, with no blank between them. -/
def Apart (l next : Lexeme) : Prop := ∀ rest, l.EndsBefore (next.chars ++ rest)

section

variable {ls : List Lexeme} {l : Lexeme} {cs : List Char}

theorem all_of_allBlank (h : AllBlank cs) : all cs = .ok [] := by
  have htrim : trimStart cs = [] := List.dropWhile_eq_nil_iff.mpr h
  rw [all]
  split
  · rfl
  · next c more heq =>
    rw [htrim] at heq
    cases heq

theorem all_of_read? {c : Char} {more rest : List Char} (htrim : trimStart cs = c :: more)
    (hread : read? (c :: more) = some (l, rest)) (hrest : all rest = .ok ls) :
    all cs = .ok (l :: ls) := by
  rw [all]
  split
  · next heq =>
    rw [htrim] at heq
    cases heq
  · next c' more' heq =>
    rw [htrim] at heq
    cases heq
    split
    · next hnone =>
      rw [hread] at hnone
      cases hnone
    · next l' rest' hsome =>
      rw [hread] at hsome
      cases hsome
      rw [hrest]
      rfl

theorem endsBefore_of_isBlank (h : ∀ c ∈ cs.head?, isBlank c = true) : l.EndsBefore cs := by
  have halts {p : Char → Bool} (hp : ∀ c, isBlank c = true → p c = false) : Halts p cs :=
    fun c hc => hp c (h c hc)
  have hdigit : Halts isDigit cs := halts fun c hblank => by
    by_contra hc
    simp [not_isBlank_of_isDigit (by simpa using hc)] at hblank
  cases l with
  | number negative whole fraction =>
    cases fraction with
    | none =>
      refine ⟨hdigit, ?_⟩
      rintro c more rfl
      exact absurd (h '.' rfl) (by decide)
    | some digits => exact hdigit
  | name chars =>
    refine halts fun c hblank => Bool.or_eq_false_iff.mpr ⟨?_, ?_⟩
    · by_contra hc
      simp [not_isBlank_of_isNameChar (by simpa using hc)] at hblank
    · rw [beq_eq_false_iff_ne]
      rintro rfl
      exact absurd hblank (by decide)
  | dot =>
    refine halts fun c hblank => ?_
    rw [beq_eq_false_iff_ne]
    rintro rfl
    exact absurd hblank (by decide)
  | _ => trivial

theorem endsBefore_of_spaced (hspaced : Spaced ls cs) (hapart : (l :: ls).IsChain Apart) :
    l.EndsBefore cs := by
  cases hspaced with
  | nil hblanks => exact endsBefore_of_isBlank fun c hc => hblanks c (List.mem_of_mem_head? hc)
  | @cons blanks _ next _ hblanks =>
    cases blanks with
    | nil => exact (List.isChain_cons_cons.mp hapart).1 _
    | cons b blanks =>
      refine endsBefore_of_isBlank ?_
      rintro c ⟨⟩
      exact hblanks b List.mem_cons_self

/-- A text of whole lexemes, none of which runs on into the next, is read as them. -/
theorem all_of_spaced (hspaced : Spaced ls cs) (hwhole : ∀ l ∈ ls, l.IsWhole)
    (hapart : ls.IsChain Apart) : all cs = .ok ls := by
  induction hspaced with
  | nil hblanks => exact all_of_allBlank hblanks
  | @cons blanks cs l ls hblanks hspaced ih =>
    obtain ⟨hl, hls⟩ := List.forall_mem_cons.mp hwhole
    obtain ⟨c, more, hchars, hc⟩ := exists_first hl
    have htrim : trimStart (blanks ++ (l.chars ++ cs)) = c :: (more ++ cs) := by
      rw [trimStart_append hblanks, hchars, List.cons_append, trimStart_cons hc]
    have hread : read? (c :: (more ++ cs)) = some (l, cs) := by
      rw [← List.cons_append, ← hchars]
      exact read?_of_isWhole hl (endsBefore_of_spaced hspaced hapart)
    exact all_of_read? htrim hread (ih hls hapart.tail)

theorem spaced_of_all (h : all cs = .ok ls) : Spaced ls cs ∧ ∀ l ∈ ls, l.IsWhole := by
  fun_induction all cs generalizing ls with
  | case1 cs htrim =>
    cases h
    exact ⟨.nil (List.dropWhile_eq_nil_iff.mp htrim), List.forall_mem_nil _⟩
  | case2 cs c more htrim hread => cases h
  | case3 cs c more htrim l rest hread ih =>
    cases hrest : all rest with
    | error fault =>
      rw [hrest] at h
      cases h
    | ok ls' =>
      rw [hrest] at h
      cases h
      obtain ⟨hspaced, hwhole⟩ := ih hrest
      obtain ⟨blanks, hblanks, hcs⟩ := exists_trimStart cs
      rw [htrim, ← read?_append hread] at hcs
      rw [hcs]
      exact ⟨.cons hblanks hspaced, List.forall_mem_cons.mpr ⟨isWhole_of_read? hread, hwhole⟩⟩

/-! ## Blanks around -/

theorem Spaced.blanks_append {blanks : List Char} (hblanks : AllBlank blanks) (h : Spaced ls cs) :
    Spaced ls (blanks ++ cs) := by
  cases h with
  | nil hmore => exact .nil (List.forall_mem_append.mpr ⟨hblanks, hmore⟩)
  | cons hmore hspaced =>
    rw [← List.append_assoc]
    exact .cons (List.forall_mem_append.mpr ⟨hblanks, hmore⟩) hspaced

theorem Spaced.append_blanks {blanks : List Char} (hblanks : AllBlank blanks) (h : Spaced ls cs) :
    Spaced ls (cs ++ blanks) := by
  induction h with
  | nil hmore => exact .nil (List.forall_mem_append.mpr ⟨hmore, hblanks⟩)
  | cons hmore hspaced ih =>
    rw [List.append_assoc, List.append_assoc]
    exact .cons hmore ih

theorem Spaced.trimStart (h : Spaced ls cs) (hwhole : ∀ l ∈ ls, l.IsWhole) :
    Spaced ls (trimStart cs) := by
  cases h with
  | nil hblanks =>
    rw [show Text.trimStart cs = [] from List.dropWhile_eq_nil_iff.mpr hblanks]
    exact .nil nofun
  | @cons blanks cs l ls hblanks hspaced =>
    obtain ⟨c, more, hchars, hc⟩ := exists_first (hwhole l List.mem_cons_self)
    rw [trimStart_append hblanks, hchars, List.cons_append, trimStart_cons hc,
      ← List.cons_append, ← hchars]
    have hnone : AllBlank [] := nofun
    have hfirst := @Spaced.cons [] cs l ls hnone hspaced
    exact hfirst

theorem Spaced.trimEnd (h : Spaced ls cs) (hwhole : ∀ l ∈ ls, l.IsWhole) :
    Spaced ls (trimEnd cs) := by
  induction h with
  | nil hblanks =>
    rw [trimEnd_of_allBlank hblanks]
    exact .nil nofun
  | @cons blanks cs l ls hblanks hspaced ih =>
    obtain ⟨hl, hls⟩ := List.forall_mem_cons.mp hwhole
    obtain ⟨before, c, hchars, hc⟩ := exists_last hl
    have htrim : Text.trimEnd (blanks ++ (l.chars ++ cs)) =
        blanks ++ (l.chars ++ Text.trimEnd cs) := by
      have := trimEnd_append hc (blanks ++ before) cs
      simpa [hchars] using this
    rw [htrim]
    exact .cons hblanks (ih hls)

theorem spaced_trim (hwhole : ∀ l ∈ ls, l.IsWhole) : Spaced ls (trim cs) ↔ Spaced ls cs := by
  constructor
  · intro h
    obtain ⟨before, hbefore, hstart⟩ := exists_trimStart cs
    obtain ⟨after, hafter, hend⟩ := exists_trimEnd (trimStart cs)
    rw [hstart, hend]
    exact (h.append_blanks hafter).blanks_append hbefore
  · exact fun h => (h.trimStart hwhole).trimEnd hwhole

end

end Lexeme

end Stencil
