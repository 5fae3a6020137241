import Stencil.Proofs.Token.Rules

/-!
# Openers of tags

The opener of a tag is never inside of an output marker, but for one place: a percent sign right
after the two braces of the marker makes an opener with the second of them. So a tag behind a text
without markers is a token, unless a brace at the end of the text joins up with that of the tag.
-/

namespace Stencil.Token

/-! ## Openers in an output marker -/

theorem IsMarker.opener_iff {v : List Char} (h : IsMarker .output v) (i : Nat) :
    StandsAt ['{', '%'] v i ↔ i = 1 ∧ v[2]? = some '%' := by
  obtain ⟨⟨hopens, -, -⟩, hlater⟩ := h
  obtain ⟨more, rfl⟩ := hopens
  match i with
  | 0 => simp [StandsAt]
  | 1 => cases more <;> simp [StandsAt, eq_comm]
  | i + 2 => simpa using hlater (i + 2) (Nat.le_add_left 2 i)

theorem outputEnd?_isSome_iff {cs : List Char} :
    (outputEnd? cs).isSome ↔
      ∃ i, StandsAt ['}', '}'] cs i ∧ ∀ j < i, ¬ StandsAt ['{', '%'] cs j := by
  fun_induction outputEnd? cs with
  | case1 => simp [StandsAt]
  | case2 after => exact iff_of_true rfl ⟨0, ⟨after, rfl⟩, fun j hj => absurd hj j.not_lt_zero⟩
  | case3 more =>
    refine iff_of_false Bool.false_ne_true ?_
    rintro ⟨i, hclose, hopen⟩
    cases i with
    | zero => cases hclose.choose_spec
    | succ i => exact hopen 0 (Nat.zero_lt_succ i) ⟨more, rfl⟩
  | case4 c cs hne hno ih =>
    rw [Option.isSome_map, ih]
    constructor
    · rintro ⟨i, hclose, hopen⟩
      refine ⟨i + 1, hclose, fun j hj hstands => ?_⟩
      cases j with
      | zero =>
        obtain ⟨more, hmore⟩ := hstands
        cases hmore
        exact hno _ rfl rfl
      | succ j => exact hopen j (Nat.lt_of_succ_lt_succ hj) hstands
    · rintro ⟨i, hclose, hopen⟩
      cases i with
      | zero =>
        obtain ⟨more, hmore⟩ := hclose
        cases hmore
        exact absurd rfl (hne _ rfl)
      | succ i => exact ⟨i, hclose, fun j hj => hopen (j + 1) (Nat.succ_lt_succ hj)⟩

/-! ## A tag behind a text -/

/-- No tag opens in the text, and no marker is whole in it. -/
structure Unmarked (cs : List Char) : Prop where
  opener : ¬ ['{', '%'] <:+: cs
  whole : ∀ i kind v, IsMarker kind v → ¬ StandsAt v cs i

/--
The brace at the end of a text and the one of the tag behind it open an output marker: two braces
close it before another tag opens.
-/
structure Joins (cs tag rest : List Char) : Prop where
  brace : cs.getLast? = some '{'
  closes : ∃ i, StandsAt ['}', '}'] (tag.tail ++ rest) i ∧
    ∀ j < i, ¬ StandsAt ['{', '%'] (tag.tail ++ rest) j

section

variable {c : Char} {cs tag rest : List Char}

theorem Unmarked.marker?_eq_none (h : Unmarked cs) : marker? cs = none :=
  marker?_eq_none_iff.mpr (h.whole 0)

theorem Unmarked.tail (h : Unmarked (c :: cs)) : Unmarked cs where
  opener hpart := h.opener (List.infix_cons hpart)
  whole i := h.whole (i + 1)

theorem Unmarked.ne_opener (h : Unmarked cs) (more : List Char) : cs ≠ '{' :: '%' :: more := by
  rintro rfl
  exact h.opener (List.prefix_append ['{', '%'] more).isInfix

theorem joins_cons (hcs : cs ≠ []) : Joins (c :: cs) tag rest ↔ Joins cs tag rest := by
  have hlast : (c :: cs).getLast? = cs.getLast? := List.getLast?_cons_of_ne_nil hcs
  constructor
  · exact fun h => ⟨hlast ▸ h.brace, h.closes⟩
  · exact fun h => ⟨hlast ▸ h.brace, h.closes⟩

theorem marker?_brace_tag (h : IsMarker .tag tag) : marker? ('{' :: (tag ++ rest)) =
    (outputEnd? (tag.tail ++ rest)).map fun (inner, after) =>
      ((.output, '{' :: '{' :: inner ++ ['}', '}']), after) := by
  obtain ⟨inner, rfl, -⟩ := isMarker_tag_iff.mp h
  rfl

theorem exists_of_outputEnd?_tag {inner after : List Char} (h : IsMarker .tag tag)
    (hend : outputEnd? (tag.tail ++ rest) = some (inner, after)) :
    ∃ more, inner = '%' :: more := by
  obtain ⟨tagInner, rfl, -⟩ := isMarker_tag_iff.mp h
  have hcut := outputEnd?_eq_append hend
  cases inner with
  | nil => cases hcut
  | cons c more =>
    obtain ⟨rfl, -⟩ := List.cons.inj hcut
    exact ⟨more, rfl⟩

theorem Unmarked.marker?_append (h : Unmarked (c :: cs)) (htag : IsMarker .tag tag)
    (hbrace : c :: cs ≠ ['{']) : marker? (c :: (cs ++ (tag ++ rest))) = none := by
  obtain ⟨inner, rfl, -⟩ := isMarker_tag_iff.mp htag
  exact marker?_append_of_none h.marker?_eq_none h.ne_opener hbrace _

theorem pieces_append_tag (h : Unmarked cs) (htag : IsMarker .tag tag)
    (hjoins : ¬ Joins cs tag rest) :
    pieces (cs ++ (tag ++ rest)) = pieces cs ++ (.tag, tag) :: pieces rest := by
  induction cs with
  | nil =>
    rw [pieces_nil]
    exact pieces_of_marker (marker?_eq_some_iff.mpr ⟨htag, rfl⟩)
  | cons c cs ih =>
    have hkind : TokenKind.tag ≠ .text := by decide
    obtain ⟨hnone, htail⟩ :
        marker? (c :: (cs ++ (tag ++ rest))) = none ∧ ¬ Joins cs tag rest := by
      by_cases hbrace : c :: cs = ['{']
      · cases hbrace
        refine ⟨?_, fun hnil => nomatch hnil.brace⟩
        rw [List.nil_append, marker?_brace_tag htag, Option.map_eq_none_iff,
          ← Option.not_isSome_iff_eq_none]
        exact fun hsome => hjoins ⟨rfl, outputEnd?_isSome_iff.mp hsome⟩
      · refine ⟨h.marker?_append htag hbrace, fun hcs => ?_⟩
        have hne : cs ≠ [] := by
          rintro rfl
          cases hcs.brace
        exact hjoins ((joins_cons hne).mpr hcs)
    rw [List.cons_append, pieces_of_none hnone, ih h.tail htail, pieces_of_none h.marker?_eq_none,
      consText_append c _ hkind]

/-- The marker that swallows the opener starts at the last brace of the text. -/
theorem pieces_append_joined (h : Unmarked cs) (htag : IsMarker .tag tag)
    (hjoins : Joins cs tag rest) :
    ∃ ps v qs, pieces (cs ++ (tag ++ rest)) = ps ++ (.output, v) :: qs ∧
      flatten ps ++ ['{'] = cs ∧ StandsAt ['{', '%'] v 1 := by
  induction cs with
  | nil => exact nomatch hjoins.brace
  | cons c cs ih =>
    by_cases hbrace : c :: cs = ['{']
    · cases hbrace
      obtain ⟨⟨inner, after⟩, hend⟩ :=
        Option.isSome_iff_exists.mp (outputEnd?_isSome_iff.mpr hjoins.closes)
      obtain ⟨more, rfl⟩ := exists_of_outputEnd?_tag htag hend
      refine ⟨[], '{' :: '{' :: '%' :: more ++ ['}', '}'], pieces after, pieces_of_marker ?_, rfl,
        List.prefix_append ['{', '%'] _⟩
      rw [List.singleton_append, marker?_brace_tag htag, hend]
      rfl
    · have hne : cs ≠ [] := by
        rintro rfl
        exact hbrace (congrArg (· :: []) (Option.some.inj hjoins.brace))
      obtain ⟨ps, v, qs, hpieces, hcs, hopener⟩ := ih h.tail ((joins_cons hne).mp hjoins)
      have hkind : TokenKind.output ≠ .text := by decide
      refine ⟨consText c ps, v, qs, ?_, ?_, hopener⟩
      · rw [List.cons_append, pieces_of_none (h.marker?_append htag hbrace), hpieces,
          consText_append c ps hkind]
      · rw [flatten_consText, List.cons_append, hcs]

end

/-! ## Tokens -/

/-- The tag is a token, between the tokens of the text before it and those of the text after it. -/
def IsCutOff (before tag after : String) : Prop :=
  all (before ++ tag ++ after) =
    all before ++ ⟨.tag, tag, 1 + before.toList.count '\n'⟩ ::
      (all after).map (shift ((before ++ tag).toList.count '\n'))

/-- An output token starts at the brace before the tag, and the opener of the tag is in it. -/
def IsHidden (before tag after : String) : Prop :=
  ∃ ts t us, all (before ++ tag ++ after) = ts ++ t :: us ∧
    Literal.text ts ++ ['{'] = before.toList ∧ t.kind = .output ∧
    StandsAt ['{', '%'] t.value.toList 1

section

variable {before tag after : String} (hbefore : Unmarked before.toList)
  (htag : IsMarker .tag tag.toList)

include hbefore htag

theorem isCutOff (hjoins : ¬ Joins before.toList tag.toList after.toList) :
    IsCutOff before tag after := by
  have hline : 1 + before.toList.count '\n' + tag.toList.count '\n' =
      (before ++ tag).toList.count '\n' + 1 := by
    rw [String.toList_append, List.count_append]
    omega
  unfold IsCutOff all
  rw [String.toList_append, String.toList_append, List.append_assoc,
    pieces_append_tag hbefore htag hjoins, number_append, flatten_pieces, number,
    String.ofList_toList, hline, String.toList_append, number_add]

theorem isHidden (hjoins : Joins before.toList tag.toList after.toList) :
    IsHidden before tag after := by
  obtain ⟨ps, v, qs, hpieces, htext, hopener⟩ := pieces_append_joined hbefore htag hjoins
  unfold IsHidden all
  rw [String.toList_append, String.toList_append, List.append_assoc, hpieces, number_append, number]
  refine ⟨_, _, _, rfl, ?_, rfl, ?_⟩
  · rw [Literal.text, text_number]
    exact htext
  · rwa [String.toList_ofList]

end

/--
The only opener of a tag that an output token can hold starts at its second brace. A tag behind a
text without markers is a token, unless it joins up with a brace before it.
-/
theorem openers_hide_behind_braces (source before tag after : String) :
    (∀ u ∈ all source, u.kind = .output → ∀ i,
      StandsAt ['{', '%'] u.value.toList i ↔ i = 1 ∧ u.value.toList[2]? = some '%') ∧
    (Unmarked before.toList → IsMarker .tag tag.toList →
      (¬ Joins before.toList tag.toList after.toList → IsCutOff before tag after) ∧
      (Joins before.toList tag.toList after.toList → IsHidden before tag after)) := by
  constructor
  · intro u hu hkind
    have hmarker := (cuts_number_pieces 1 source.toList).markers u hu (by rw [hkind]; decide)
    rw [hkind] at hmarker
    exact hmarker.opener_iff
  · exact fun hbefore htag => ⟨isCutOff hbefore htag, isHidden hbefore htag⟩

theorem unmarked_iff {cs : List Char} :
    Unmarked cs ↔ ¬ ['{', '%'] <:+: cs ∧ ∀ i < cs.length, marker? (cs.drop i) = none := by
  constructor
  · rintro ⟨hopener, hwhole⟩
    exact ⟨hopener, fun i _ => marker?_eq_none_iff.mpr (hwhole i)⟩
  · rintro ⟨hopener, hnone⟩
    refine ⟨hopener, fun i => marker?_eq_none_iff.mp ?_⟩
    by_cases hi : i < cs.length
    · exact hnone i hi
    · rw [List.drop_eq_nil_of_le (Nat.le_of_not_lt hi)]
      rfl

theorem isMarker_iff {kind : TokenKind} {v : List Char} :
    IsMarker kind v ↔ marker? v = some ((kind, v), []) := by
  simp [marker?_eq_some_iff]

theorem all_braces : all "\x7b\x7b%a%\x7d\x7d" = [⟨.output, "\x7b\x7b%a%\x7d\x7d", 1⟩] := by
  have hmarker : marker? "\x7b\x7b%a%\x7d\x7d".toList =
      some ((.output, "\x7b\x7b%a%\x7d\x7d".toList), []) := by decide
  rw [all, pieces_of_marker hmarker, pieces_nil]
  rfl

/-- A brace before a tag does no harm where another tag opens before two braces close. -/
theorem opener_hides_only_where_braces_close :
    (∃ u ∈ all "\x7b\x7b%a%\x7d\x7d", u.kind = .output ∧
      StandsAt ['{', '%'] u.value.toList 1) ∧
    (Unmarked "\x7b".toList ∧ IsMarker .tag "\x7b%a%\x7d".toList ∧
      (¬ Joins "\x7b".toList "\x7b%a%\x7d".toList "\x7b%b%\x7d\x7d\x7d".toList ∧
        IsCutOff "\x7b" "\x7b%a%\x7d" "\x7b%b%\x7d\x7d\x7d") ∧
      (Joins "\x7b".toList "\x7b%a%\x7d".toList "\x7d".toList ∧
        IsHidden "\x7b" "\x7b%a%\x7d" "\x7d")) := by
  obtain ⟨hopener, hsafe⟩ := openers_hide_behind_braces "\x7b\x7b%a%\x7d\x7d" "\x7b"
    "\x7b%a%\x7d" "\x7b%b%\x7d\x7d\x7d"
  obtain ⟨-, hhides⟩ := openers_hide_behind_braces "\x7b\x7b%a%\x7d\x7d" "\x7b"
    "\x7b%a%\x7d" "\x7d"
  have hbefore : Unmarked "\x7b".toList := unmarked_iff.mpr (by decide)
  have htag : IsMarker .tag "\x7b%a%\x7d".toList := isMarker_iff.mpr (by decide)
  have hapart : ¬ Joins "\x7b".toList "\x7b%a%\x7d".toList "\x7b%b%\x7d\x7d\x7d".toList := by
    rintro ⟨-, hcloses⟩
    exact absurd (outputEnd?_isSome_iff.mpr hcloses) (by decide)
  have hjoins : Joins "\x7b".toList "\x7b%a%\x7d".toList "\x7d".toList :=
    ⟨rfl, outputEnd?_isSome_iff.mp rfl⟩
  have hmem : ⟨.output, "\x7b\x7b%a%\x7d\x7d", 1⟩ ∈ all "\x7b\x7b%a%\x7d\x7d" := by
    rw [all_braces]
    exact List.mem_cons_self
  exact ⟨⟨_, hmem, rfl, (hopener _ hmem rfl 1).mpr ⟨rfl, rfl⟩⟩, hbefore, htag,
    ⟨hapart, (hsafe hbefore htag).1 hapart⟩, ⟨hjoins, (hhides hbefore htag).2 hjoins⟩⟩

/-- A brace before the tag and one behind it are enough to hide it. -/
theorem braces_hide_tag :
    (∃ source, ∃ u ∈ all source, u.kind = .output ∧ ['{', '%'] <:+: u.value.toList) ∧
    ∃ before tag after : String, Unmarked before.toList ∧ IsMarker .tag tag.toList ∧
      ∀ u ∈ all (before ++ tag ++ after), u.kind ≠ .tag := by
  refine ⟨⟨"\x7b\x7b%a%\x7d\x7d", ?_⟩, "\x7b", "\x7b%a%\x7d", "\x7d",
    unmarked_iff.mpr (by decide), isMarker_iff.mpr (by decide), ?_⟩
  · rw [all_braces]
    exact ⟨_, List.mem_cons_self, rfl, by decide⟩
  · show ∀ u ∈ all "\x7b\x7b%a%\x7d\x7d", u.kind ≠ .tag
    rw [all_braces]
    decide

end Stencil.Token
