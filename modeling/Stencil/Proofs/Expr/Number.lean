import Mathlib.Data.List.TakeWhile
import Stencil.Expr.Lexeme

/-!
# The numbers of expressions

A lexeme is a piece of the text that it is read from. One that is written as a number has digits
before the point and after it, so its text alone can always be taken for a number, and the value of
the lexeme is that number.
-/

namespace Stencil

/-! ## Digits -/

namespace Text

/-- What holds of the ten digits of every script holds of all digits. -/
theorem forall_isDigit {p : Char → Bool}
    (h : ∀ start ∈ zeroDigits, ∀ i < 10, p (Char.ofNat (start + i)) = true) {c : Char}
    (hc : isDigit c = true) : p c = true := by
  unfold isDigit digitValue? at hc
  rw [Option.isSome_map, List.find?_isSome] at hc
  obtain ⟨start, hstart, hrange⟩ := hc
  rw [Bool.and_eq_true, decide_eq_true_eq, decide_eq_true_eq] at hrange
  have hdigit := h start hstart (c.toNat - start) (by omega)
  rwa [Nat.add_sub_cancel' hrange.1, Char.ofNat_toNat] at hdigit

theorem not_isBlank_of_isDigit {c : Char} (h : isDigit c = true) : isBlank c = false := by
  have hplain : (!isBlank c) = true :=
    forall_isDigit (p := fun c => !isBlank c) (by decide +kernel) h
  simpa using hplain

theorem not_mem_of_isDigit {c : Char} (h : isDigit c = true) :
    c ∉ ['.', '-', '+', '_', 'i', 'n'] := by
  have hother : decide (c ∉ ['.', '-', '+', '_', 'i', 'n']) = true :=
    forall_isDigit (p := fun c => decide (c ∉ ['.', '-', '+', '_', 'i', 'n']))
      (by decide +kernel) h
  exact of_decide_eq_true hother

/-- A text of one digit or more. -/
def IsDigits (cs : List Char) : Prop := cs ≠ [] ∧ ∀ c ∈ cs, isDigit c = true

theorem IsDigits.exists_cons {cs : List Char} (h : IsDigits cs) :
    ∃ c rest, cs = c :: rest ∧ isDigit c = true := by
  obtain ⟨hne, hdigits⟩ := h
  obtain ⟨c, rest, rfl⟩ := List.exists_cons_of_ne_nil hne
  exact ⟨c, rest, rfl, hdigits c List.mem_cons_self⟩

end Text

open Text

/-! ## Whole numbers -/

theorem groupedDigits?_of_isDigits {cs : List Char} (h : IsDigits cs) :
    groupedDigits? cs = some cs := by
  obtain ⟨hne, hdigits⟩ := h
  fun_induction groupedDigits? cs with
  | case1 => contradiction
  | case2 c hc => rfl
  | case3 c hc => exact absurd (hdigits c List.mem_cons_self) hc
  | case4 c rest hc ih =>
    have hmark : isDigit '_' = true := hdigits '_' (by simp)
    exact absurd (by simp) (not_mem_of_isDigit hmark)
  | case5 c rest hc => exact absurd (hdigits c List.mem_cons_self) hc
  | case6 c rest hrest hmark hc ih =>
    rw [ih hrest fun d hd => hdigits d (List.mem_cons_of_mem c hd)]
    rfl
  | case7 c rest hrest hmark hc => exact absurd (hdigits c List.mem_cons_self) hc

theorem dropWhile_isPadding {cs : List Char} (h : ∀ c ∈ cs, isBlank c = false) :
    cs.dropWhile isPadding = cs := by
  cases cs with
  | nil => rfl
  | cons c cs =>
    apply List.dropWhile_cons_of_neg
    simp [isPadding, h c List.mem_cons_self]

theorem trimPadding_eq_self {cs : List Char} (h : ∀ c ∈ cs, isBlank c = false) :
    trimPadding cs = cs := by
  have hreverse : ∀ c ∈ cs.reverse, isBlank c = false := fun c hc => h c (List.mem_reverse.mp hc)
  rw [trimPadding, dropWhile_isPadding h, dropWhile_isPadding hreverse, List.reverse_reverse]

theorem readInt?_of_isDigits {cs : List Char} (h : IsDigits cs) :
    readInt? cs = (natOfDigits? cs).map fun n => (n : Int) := by
  have htrim : trimPadding cs = cs :=
    trimPadding_eq_self fun c hc => not_isBlank_of_isDigit (h.2 c hc)
  have hgroups := groupedDigits?_of_isDigits h
  obtain ⟨c, rest, rfl, hc⟩ := h.exists_cons
  have hother := not_mem_of_isDigit hc
  unfold readInt? readNat?
  rw [htrim]
  split
  · next heq => cases heq; simp at hother
  · next heq => cases heq; simp at hother
  · rw [hgroups, Option.bind_some]

theorem readInt?_minus_of_isDigits {cs : List Char} (h : IsDigits cs) :
    readInt? ('-' :: cs) = (natOfDigits? cs).map fun n => -(n : Int) := by
  have htrim : trimPadding ('-' :: cs) = '-' :: cs := by
    refine trimPadding_eq_self fun c hc => ?_
    rcases List.mem_cons.mp hc with rfl | hc
    · rfl
    · exact not_isBlank_of_isDigit (h.2 c hc)
  unfold readInt? readNat?
  rw [htrim]
  simp only [groupedDigits?_of_isDigits h, Option.bind_some]

/-! ## Numbers with a point -/

theorem readFinite?_of_isDigits (negative : Bool) {whole fraction : List Char}
    (hwhole : IsDigits whole) (hfraction : IsDigits fraction) :
    readFinite? negative (whole ++ '.' :: fraction) =
      some (floatOfDigits negative whole fraction) := by
  have hpoint : isDigit '.' = false := by decide +kernel
  have htake : (whole ++ '.' :: fraction).takeWhile isDigit = whole := by
    rw [List.takeWhile_append_of_pos hwhole.2, List.takeWhile_cons_of_neg (by simp [hpoint]),
      List.append_nil]
  have hdrop : (whole ++ '.' :: fraction).dropWhile isDigit = '.' :: fraction := by
    rw [List.dropWhile_append_of_pos hwhole.2, List.dropWhile_cons_of_neg (by simp [hpoint])]
  have htake' : fraction.takeWhile isDigit = fraction := List.takeWhile_eq_self_iff.mpr hfraction.2
  have hdrop' : fraction.dropWhile isDigit = [] := List.dropWhile_eq_nil_iff.mpr hfraction.2
  unfold readFinite?
  simp only [htake, hdrop, htake', hdrop', Option.map_some, Int.zero_sub]
  rfl

theorem unsigned_of_isDigits (negative : Bool) {whole fraction : List Char}
    (hwhole : IsDigits whole) (hfraction : IsDigits fraction) :
    readFloat?.unsigned negative (whole ++ '.' :: fraction) =
      some (floatOfDigits negative whole fraction) := by
  have hread := readFinite?_of_isDigits negative hwhole hfraction
  obtain ⟨c, rest, rfl, hc⟩ := hwhole.exists_cons
  have hother := not_mem_of_isDigit hc
  unfold readFloat?.unsigned
  rw [if_neg, if_neg, hread]
  · intro heq
    obtain rfl : c = 'n' := (List.cons.inj heq).1
    simp at hother
  · intro heq
    obtain rfl : c = 'i' := (List.cons.inj heq).1
    simp at hother

theorem readFloat?_of_isDigits {whole fraction : List Char} (hwhole : IsDigits whole)
    (hfraction : IsDigits fraction) :
    readFloat? (whole ++ '.' :: fraction) = some (floatOfDigits false whole fraction) := by
  have hread := unsigned_of_isDigits false hwhole hfraction
  obtain ⟨c, rest, rfl, hc⟩ := hwhole.exists_cons
  have hother := not_mem_of_isDigit hc
  unfold readFloat?
  split
  · next heq => cases heq; simp at hother
  · next heq => cases heq; simp at hother
  · exact hread

/-! ## Lexemes -/

/-- The number that a text writes, a floating-point number if there is a point in it. -/
def readNumeral? (cs : List Char) : Option Value :=
  if '.' ∈ cs then (readFloat? cs).map .float else (readInt? cs).map .int

namespace Lexeme

/-- A number has digits before its point, and if it has a point, after it. -/
def HasDigits : Lexeme → Prop
  | .number _ whole fraction => IsDigits whole ∧ ∀ digits ∈ fraction, IsDigits digits
  | _ => True

theorem whole_isInfix (negative : Bool) (whole : List Char) (fraction : Option (List Char)) :
    whole <:+: (number negative whole fraction).chars := ⟨_, _, rfl⟩

theorem readNumeral?_chars {negative : Bool} {whole : List Char} {fraction : Option (List Char)}
    (h : (number negative whole fraction).HasDigits) :
    readNumeral? (number negative whole fraction).chars =
      (numberValue negative whole fraction).toOption := by
  obtain ⟨hwhole, hfraction⟩ := h
  cases fraction with
  | none =>
    have hpoint : '.' ∉ whole := fun hmem => by
      have := not_mem_of_isDigit (hwhole.2 _ hmem)
      simp at this
    have hunsigned := readInt?_of_isDigits hwhole
    have hsigned := readInt?_minus_of_isDigits hwhole
    cases hn : natOfDigits? whole <;> cases negative <;>
      simp [readNumeral?, chars, numberValue, hpoint, hunsigned, hsigned, hn, Except.toOption]
  | some digits =>
    have hdigits := hfraction digits rfl
    cases negative with
    | false =>
      have hread := readFloat?_of_isDigits hwhole hdigits
      simp [readNumeral?, chars, numberValue, hread, Except.toOption]
    | true =>
      have hread := unsigned_of_isDigits true hwhole hdigits
      simp [readNumeral?, chars, numberValue, readFloat?, hread, Except.toOption]

theorem numberValue_eq_error_iff {negative : Bool} {whole : List Char}
    {fraction : Option (List Char)} {o : Overflow} :
    numberValue negative whole fraction = .error o ↔
      fraction = none ∧ maxDigits < whole.length ∧ o = .unreadable whole.length := by
  cases fraction with
  | some digits => simp [numberValue]
  | none =>
    unfold numberValue natOfDigits?
    by_cases hlength : whole.length ≤ maxDigits
    · simp [hlength, Nat.not_lt_of_le hlength]
    · simp [hlength, Nat.lt_of_not_le hlength, eq_comm]

/-! ## Reading lexemes -/

section

variable {l : Lexeme} {cs rest : List Char}

theorem isDigits_takeWhile {c : Char} (h : isDigit c = true) (cs : List Char) :
    IsDigits ((c :: cs).takeWhile isDigit) := by
  constructor
  · rw [List.takeWhile_cons_of_pos h]
    exact List.cons_ne_nil _ _
  · intro d hd
    exact List.mem_takeWhile_imp hd

theorem hasDigits_readNumber (negative : Bool) {c : Char} (h : isDigit c = true) (cs : List Char) :
    (readNumber negative (c :: cs)).1.HasDigits := by
  have hwhole := isDigits_takeWhile h cs
  unfold readNumber
  split
  · next d more heq =>
    split
    · next hd =>
      refine ⟨hwhole, ?_⟩
      rintro digits ⟨⟩
      have hfraction := isDigits_takeWhile hd more
      rwa [List.takeWhile_cons_of_pos hd] at hfraction
    · exact ⟨hwhole, nofun⟩
  · exact ⟨hwhole, nofun⟩

theorem hasDigits_of_readQuoted? {mark : Char} (h : readQuoted? mark cs = some (l, rest)) :
    l.HasDigits := by
  unfold readQuoted? at h
  split at h
  · cases h
  · cases h
    trivial

theorem hasDigits_of_read? (h : read? cs = some (l, rest)) : l.HasDigits := by
  unfold read? at h
  split at h
  case h_1 => cases h
  case h_2 => exact hasDigits_of_readQuoted? h
  case h_3 => exact hasDigits_of_readQuoted? h
  case h_10 c more =>
    split at h
    · next hc =>
      have hnumber := hasDigits_readNumber true hc more
      rwa [Option.some.inj h] at hnumber
    · cases h
  case h_11 c more _ _ _ _ _ _ _ _ _ =>
    split at h
    · next hc =>
      have hnumber := hasDigits_readNumber false hc more
      rwa [Option.some.inj h] at hnumber
    · split at h
      · unfold readName at h
        dsimp only at h
        split at h <;> (cases h; trivial)
      · cases h
  all_goals
    cases h
    trivial

theorem readNumber_append (negative : Bool) (cs : List Char) :
    (readNumber negative cs).1.chars ++ (readNumber negative cs).2 =
      (if negative then ['-'] else []) ++ cs := by
  have hcut := List.takeWhile_append_dropWhile (p := isDigit) (l := cs)
  unfold readNumber
  split
  · next d more heq =>
    rw [heq] at hcut
    split
    · have hmore := List.takeWhile_append_dropWhile (p := isDigit) (l := more)
      simp only [chars, List.append_assoc, List.cons_append, hmore, hcut]
    · simp only [chars, List.append_assoc, List.nil_append, hcut]
  · simp only [chars, List.append_assoc, List.nil_append, hcut]

theorem readName_append (cs : List Char) : (readName cs).1.chars ++ (readName cs).2 = cs := by
  have hcut := List.takeWhile_append_dropWhile (p := isNameChar) (l := cs)
  unfold readName
  split
  · next more heq =>
    rw [heq] at hcut
    simp only [chars, List.append_assoc, List.cons_append, List.nil_append, hcut]
  · simp only [chars, hcut]

theorem readQuoted?_append {mark : Char} (h : readQuoted? mark cs = some (l, rest)) :
    l.chars ++ rest = mark :: cs := by
  have hcut := List.takeWhile_append_dropWhile (p := (· ≠ mark)) (l := cs)
  unfold readQuoted? at h
  split at h
  · cases h
  · next d more heq =>
    have hmark := List.head?_dropWhile_not (· ≠ mark) cs
    rw [heq] at hmark hcut
    obtain rfl : d = mark := by simpa using hmark
    cases h
    simp only [chars, List.append_assoc, List.cons_append, List.nil_append, hcut]

theorem read?_append (h : read? cs = some (l, rest)) : l.chars ++ rest = cs := by
  unfold read? at h
  split at h
  case h_1 => cases h
  case h_2 => exact readQuoted?_append h
  case h_3 => exact readQuoted?_append h
  case h_10 c more =>
    split at h
    · have hnumber := readNumber_append true (c :: more)
      rwa [Option.some.inj h] at hnumber
    · cases h
  case h_11 c more _ _ _ _ _ _ _ _ _ =>
    split at h
    · have hnumber := readNumber_append false (c :: more)
      rwa [Option.some.inj h] at hnumber
    · split at h
      · have hname := readName_append (c :: more)
        rwa [Option.some.inj h] at hname
      · cases h
  all_goals
    cases h
    rfl

theorem infix_of_mem_all {ls : List Lexeme} (h : all cs = .ok ls) (hl : l ∈ ls) :
    l.chars ≠ [] ∧ l.chars <:+: cs ∧ l.HasDigits := by
  fun_induction all cs generalizing ls with
  | case1 cs heq =>
    cases h
    contradiction
  | case2 cs c more heq hread => cases h
  | case3 cs c more heq first rest hread ih =>
    have hcut := List.takeWhile_append_dropWhile (p := isBlank) (l := cs)
    have hfirst := read?_append hread
    rw [show cs.dropWhile isBlank = c :: more from heq, ← hfirst] at hcut
    cases hrest : all rest with
    | error fault =>
      rw [hrest] at h
      cases h
    | ok ls' =>
      rw [hrest] at h
      cases h
      rcases List.mem_cons.mp hl with rfl | hl
      · refine ⟨?_, ⟨_, _, by rw [List.append_assoc]; exact hcut⟩, hasDigits_of_read? hread⟩
        intro hempty
        have hlength := read?_length hread
        rw [← hfirst, hempty, List.nil_append] at hlength
        omega
      · obtain ⟨hne, hpart, hdigits⟩ := ih hrest hl
        have hsuffix : rest <:+ cs := ⟨_, by rw [List.append_assoc]; exact hcut⟩
        exact ⟨hne, hpart.trans hsuffix.isInfix, hdigits⟩

end

end Lexeme

end Stencil
