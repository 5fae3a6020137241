import Stencil.Proofs.Literal.Scanning
import Stencil.Proofs.Template.Steps

/-!
# The name of a tag, read twice

A reader of tags takes the dashes off both ends of a marker before it looks for a name, a scan for
the end of a literal block only the one in front. Where a marker has one opener, both find the same
name, or none.
-/

namespace Stencil.Literal

open Text Token

/-! ## Words at the start -/

theorem takeWhile_append_of_other {tail : List Char} (h : ∀ c ∈ tail, isWordChar c = false)
    (cs : List Char) : (cs ++ tail).takeWhile isWordChar = cs.takeWhile isWordChar := by
  have htail : tail.takeWhile isWordChar = [] := by
    cases tail with
    | nil => rfl
    | cons c tail => exact List.takeWhile_cons_of_neg (by simp [h c List.mem_cons_self])
  rw [List.takeWhile_append]
  split
  · next hlength =>
    have hall : cs.takeWhile isWordChar = cs :=
      (List.takeWhile_prefix isWordChar).eq_of_length hlength
    rw [htail, List.append_nil, hall]
  · rfl

theorem takeWhile_trimStart_append {tail : List Char} (h : ∀ c ∈ tail, isWordChar c = false)
    (cs : List Char) :
    (trimStart (cs ++ tail)).takeWhile isWordChar = (trimStart cs).takeWhile isWordChar := by
  unfold trimStart
  rw [List.dropWhile_append]
  split
  · next hempty =>
    have hrest : ∀ c ∈ tail.dropWhile isBlank, isWordChar c = false := fun c hc =>
      h c ((List.dropWhile_suffix isBlank).subset hc)
    rw [List.isEmpty_iff.mp hempty]
    exact takeWhile_append_of_other hrest []
  · exact takeWhile_append_of_other h _

theorem not_isWordChar_of_isBlank {c : Char} (h : isBlank c = true) : isWordChar c = false := by
  cases hword : isWordChar c with
  | false => rfl
  | true =>
    have hname : isNameChar c = true := by simp [isNameChar, hword]
    exact absurd (not_isBlank_of_isNameChar hname) (by simp [h])

theorem takeWhile_trim (cs : List Char) :
    (trim cs).takeWhile isWordChar = (trimStart cs).takeWhile isWordChar := by
  obtain ⟨blanks, hblanks, hcs⟩ := exists_trimEnd (trimStart cs)
  have hother : ∀ c ∈ blanks, isWordChar c = false := fun c hc =>
    not_isWordChar_of_isBlank (hblanks c hc)
  rw [hcs, takeWhile_append_of_other hother]
  rfl

/-! ## Dashes -/

theorem dropDashes_cases (inner : List Char) :
    ∃ cs, markerName inner = (trimStart cs).takeWhile isWordChar ∧
      (dropDashes inner = cs ∨ cs = dropDashes inner ++ ['-']) := by
  have hlast : ∀ cs : List Char,
      (if cs.getLast? = some '-' then cs.dropLast else cs) = cs ∨
        cs = (if cs.getLast? = some '-' then cs.dropLast else cs) ++ ['-'] := by
    intro cs
    split
    · next hdash =>
      obtain ⟨front, rfl⟩ := List.getLast?_eq_some_iff.mp hdash
      exact .inr (by simp)
    · exact .inl rfl
  cases inner with
  | nil => exact ⟨[], rfl, .inl rfl⟩
  | cons c rest =>
    by_cases hdash : c = '-'
    · subst hdash
      exact ⟨rest, rfl, hlast rest⟩
    · refine ⟨c :: rest, ?_, ?_⟩
      · simp [markerName, hdash]
      · simpa [dropDashes, hdash] using hlast (c :: rest)

theorem takeWhile_dropDashes (inner : List Char) :
    (trim (dropDashes inner)).takeWhile isWordChar = markerName inner := by
  have hdash : isWordChar '-' = false := by decide +kernel
  have htail : ∀ c ∈ ['-'], isWordChar c = false := List.forall_mem_singleton.mpr hdash
  obtain ⟨cs, hname, rfl | rfl⟩ := dropDashes_cases inner
  · rw [hname, takeWhile_trim]
  · rw [hname, takeWhile_trim, takeWhile_trimStart_append htail]

/-! ## Tags -/

section

variable {t : Token} {inner : List Char}

theorem markup_of_tag (hkind : t.kind = .tag)
    (hvalue : t.value.toList = '{' :: '%' :: (inner ++ ['%', '}'])) :
    t.markup = trim (dropDashes inner) := by
  unfold Token.markup
  rw [hkind, hvalue]
  simp

theorem exists_isTag_iff (hkind : t.kind = .tag)
    (hvalue : t.value.toList = '{' :: '%' :: (inner ++ ['%', '}'])) {name : List Char} :
    (∃ markup, t.IsTag (String.ofList name) markup) ↔ name ≠ [] ∧ markerName inner = name := by
  have hname : t.markup.takeWhile isWordChar = markerName inner := by
    rw [markup_of_tag hkind hvalue, takeWhile_dropDashes]
  constructor
  · rintro ⟨markup, -, hsplit⟩
    unfold Markup.splitTag? at hsplit
    rw [hname] at hsplit
    dsimp only at hsplit
    split at hsplit
    · cases hsplit
    · next hne =>
      have heq : markerName inner = name :=
        String.ofList_injective (Prod.mk.inj (Option.some.inj hsplit)).1
      exact ⟨heq ▸ hne, heq⟩
  · rintro ⟨hne, rfl⟩
    refine ⟨trim (t.markup.dropWhile isWordChar), hkind, ?_⟩
    unfold Markup.splitTag?
    rw [hname]
    exact if_neg hne

theorem splitTag?_eq_none_iff (hkind : t.kind = .tag)
    (hvalue : t.value.toList = '{' :: '%' :: (inner ++ ['%', '}'])) :
    Markup.splitTag? t.markup = none ↔ markerName inner = [] := by
  rw [← takeWhile_dropDashes, ← markup_of_tag hkind hvalue]
  unfold Markup.splitTag?
  simp

theorem readMarkup_eq_invalidTag_iff (hkind : t.kind = .tag) :
    (∀ tags o r, Reader.readMarkup tags o r t =
      .error (.malformed (o.error t.line (.invalidTag t.value)))) ↔
        Markup.splitTag? t.markup = none := by
  unfold Reader.readMarkup
  rw [hkind]
  constructor
  · intro h
    -- Where there are no tags, a tag that has a name is refused as an unknown one.
    have hrefused := h [] ⟨none, "", false⟩ .start
    cases hsplit : Markup.splitTag? t.markup with
    | none => rfl
    | some found =>
      rw [hsplit] at hrefused
      have hfault : Reader.unknownTag [] found.1 = .invalidTag t.value :=
        congrArg SyntaxError.fault (Failure.malformed.inj (Except.error.inj hrefused))
      unfold Reader.unknownTag at hfault
      split at hfault <;> cases hfault
  · intro h tags o r
    rw [h]

theorem splitMarker_of_tag (hvalue : t.value.toList = '{' :: '%' :: (inner ++ ['%', '}']))
    (hopener : ∀ i, StandsAt ['{', '%'] t.value.toList i → i = 0) :
    splitMarker t.value.toList =
      if markerName inner = [] then (t.value.toList, none) else ([], some (markerName inner)) := by
  have hend : ['%', '}'] <:+ t.value.toList := ⟨'{' :: '%' :: inner, by simp [hvalue]⟩
  have hnamed : ∀ place name, NamedAt t.value.toList place name →
      place = 0 ∧ name ≠ [] ∧ markerName inner = name := by
    intro place name hnamed
    obtain ⟨hne, inner', hdrop, hname⟩ := namedAt_iff.mp hnamed
    obtain rfl : place = 0 := hopener place ⟨_, hdrop.symm⟩
    obtain rfl : inner' = inner := by simpa [hvalue] using hdrop.symm
    exact ⟨rfl, hne, hname⟩
  obtain ⟨hsome, hnone⟩ := lastMarker?_marks hend
  unfold splitMarker
  rw [if_pos (List.isSuffixOf_iff_suffix.mpr hend)]
  cases hlast : lastMarker? t.value.toList with
  | none =>
    have hempty : markerName inner = [] := by
      by_contra hne
      exact hnone hlast 0 _ (namedAt_iff.mpr ⟨hne, inner, hvalue, rfl⟩)
    rw [if_pos hempty]
  | some found =>
    obtain ⟨leading, name⟩ := found
    obtain ⟨place, rfl, hmarks, -⟩ := hsome leading name hlast
    obtain ⟨rfl, hne, rfl⟩ := hnamed place name hmarks
    rw [if_neg hne]
    rfl

end

/--
Where no more than one opener stands in a tag, a scan for the end of a literal block splits it at
its start and finds a name there exactly if that is the name of the tag for a reader, and finds
none exactly if a reader refuses the tag as one that has no name.
-/
theorem scan_and_reader_name_alike {source : String} {t : Token} (ht : t ∈ Token.all source)
    (hkind : t.kind = .tag) (hopener : ∃! i, StandsAt ['{', '%'] t.value.toList i) :
    (∀ name : List Char, splitMarker t.value.toList = ([], some name) ↔
      ∃ markup, t.IsTag (String.ofList name) markup) ∧
    (splitMarker t.value.toList = (t.value.toList, none) ↔ Markup.splitTag? t.markup = none) ∧
    (Markup.splitTag? t.markup = none ↔ ∀ tags o r,
      Reader.readMarkup tags o r t =
        .error (.malformed (o.error t.line (.invalidTag t.value)))) := by
  have hmarker := (cuts_number_pieces 1 source.toList).markers t ht (by rw [hkind]; decide)
  rw [hkind] at hmarker
  obtain ⟨inner, hvalue, -⟩ := isMarker_tag_iff.mp hmarker
  have hzero : ∀ i, StandsAt ['{', '%'] t.value.toList i → i = 0 := by
    have hstart : StandsAt ['{', '%'] t.value.toList 0 := hmarker.opens
    exact fun i hi => hopener.unique hi hstart
  have hsplit := splitMarker_of_tag hvalue hzero
  refine ⟨fun name => ?_, ?_, (readMarkup_eq_invalidTag_iff hkind).symm⟩
  · rw [hsplit, exists_isTag_iff hkind hvalue]
    split
    · next hempty =>
      rw [hempty]
      exact iff_of_false (by simp) fun h => h.1 h.2.symm
    · next hne =>
      constructor
      · rintro ⟨⟩
        exact ⟨hne, rfl⟩
      · rintro ⟨-, rfl⟩
        rfl
  · rw [hsplit, splitTag?_eq_none_iff hkind hvalue]
    split
    · next hempty => exact iff_of_true rfl hempty
    · next hne => exact iff_of_false (by simp) hne

/-- A reader takes one dash off behind the name and leaves one, a scan looks at neither. -/
theorem dashed_tag_named_alike :
    splitMarker "\x7b%- endraw--%\x7d".toList = ([], some "endraw".toList) := by
  have hmem : ⟨.tag, "\x7b%- endraw--%\x7d", 1⟩ ∈ Token.all "\x7b%- endraw--%\x7d" := by
    have hmarker : marker? "\x7b%- endraw--%\x7d".toList =
        some ((.tag, "\x7b%- endraw--%\x7d".toList), []) := by decide +kernel
    rw [Token.all, pieces_of_marker hmarker, pieces_nil]
    exact List.mem_cons_self
  have hopener : ∃! i, StandsAt ['{', '%'] "\x7b%- endraw--%\x7d".toList i := by
    refine ⟨0, ⟨"- endraw--%\x7d".toList, rfl⟩, fun i hi => ?_⟩
    have hbound : i + 2 ≤ 14 := hi.length_le (by simp)
    have hnone : ∀ i ≤ 12, ['{', '%'] <+: "\x7b%- endraw--%\x7d".toList.drop i → i = 0 := by decide
    exact hnone i (by omega) hi
  obtain ⟨hnamed, -, -⟩ := scan_and_reader_name_alike hmem rfl hopener
  exact (hnamed _).mpr ⟨"-".toList, rfl, by decide +kernel⟩

end Stencil.Literal
