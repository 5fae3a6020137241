import Stencil.Proofs.Literal.Closing
import Stencil.Proofs.Token.Pieces

/-!
# The rules of tokens

Which tokens a text is cut into, without a word on how they are found: where markers open and end,
that none opens in a text, and on which line each token starts.
-/

namespace Stencil

/-- A word stands at this place of a text. -/
def StandsAt (word cs : List Char) (i : Nat) : Prop := word <+: cs.drop i

namespace StandsAt

variable {word cs after : List Char} {i : Nat}

theorem length_le (h : StandsAt word cs i) (hword : word ≠ []) : i + word.length ≤ cs.length := by
  have hle : word.length ≤ cs.length - i := by
    rw [← List.length_drop]
    exact List.IsPrefix.length_le h
  have hpos := List.length_pos_iff.mpr hword
  omega

theorem append_iff (hfits : i + word.length ≤ cs.length) :
    StandsAt word (cs ++ after) i ↔ StandsAt word cs i := by
  unfold StandsAt
  rw [List.drop_append_of_le_length (by omega)]
  constructor
  · intro h
    refine List.prefix_of_prefix_length_le h (List.prefix_append _ _) ?_
    rw [List.length_drop]
    omega
  · exact fun h => h.trans (List.prefix_append _ _)

theorem before_closer_iff {a b c d : Char} (hi : i < cs.length) :
    StandsAt [a, b] (cs ++ c :: d :: after) i ↔ StandsAt [a, b] (cs ++ [c, d]) i := by
  rw [show cs ++ c :: d :: after = cs ++ [c, d] ++ after by simp]
  exact append_iff (by simp; omega)

theorem after_iff : StandsAt word (cs ++ after) (cs.length + i) ↔ StandsAt word after i := by
  unfold StandsAt
  rw [List.drop_length_add_append]

end StandsAt

namespace Token

/-! ## The rules -/

/-- A text that opens with one word, and ends with the first other word from its third place on. -/
structure Spans (opener closer v : List Char) : Prop where
  opens : StandsAt opener v 0
  closes : ∃ i, 2 ≤ i ∧ i + 2 = v.length ∧ StandsAt closer v i
  first : ∀ i, 2 ≤ i → StandsAt closer v i → i + 2 = v.length

/-- A marker that is whole. No tag opens inside of an output marker. -/
def IsMarker : TokenKind → List Char → Prop
  | .text, _ => False
  | .tag, v => Spans ['{', '%'] ['%', '}'] v
  | .output, v => Spans ['{', '{'] ['}', '}'] v ∧ ∀ i, 2 ≤ i → ¬ StandsAt ['{', '%'] v i

/-- How a text is cut into tokens, the first of which starts on this line. -/
structure Cuts (line : Nat) (cs : List Char) (ts : List Token) : Prop where
  text : Literal.text ts = cs
  nonempty : ∀ t ∈ ts, t.value ≠ ""
  apart : ∀ before t u after, ts = before ++ t :: u :: after →
    ¬ (t.kind = .text ∧ u.kind = .text)
  markers : ∀ t ∈ ts, t.kind ≠ .text → IsMarker t.kind t.value.toList
  plain : ∀ before t after, ts = before ++ t :: after → t.kind = .text →
    ∀ i < t.value.length, ∀ kind v, IsMarker kind v →
      ¬ StandsAt v cs ((Literal.text before).length + i)
  lines : ∀ before t after, ts = before ++ t :: after →
    t.line = line + (Literal.text before).count '\n'

/-! ## Where markers end -/

section

variable {c : Char} {cs v inner after : List Char}

theorem tagEnd?_eq_some_iff :
    tagEnd? cs = some (inner, after) ↔
      cs = inner ++ '%' :: '}' :: after ∧ ∀ i < inner.length, ¬ StandsAt ['%', '}'] cs i := by
  fun_induction tagEnd? cs generalizing inner with
  | case1 => simp
  | case2 after' =>
    constructor
    · rintro ⟨⟩
      exact ⟨rfl, fun i hi => absurd hi (Nat.not_lt_zero i)⟩
    · rintro ⟨hcs, hfirst⟩
      cases inner with
      | nil =>
        cases hcs
        rfl
      | cons d inner => exact absurd ⟨after', rfl⟩ (hfirst 0 (Nat.zero_lt_succ _))
  | case3 c cs hne ih =>
    rw [Option.map_eq_some_iff]
    constructor
    · rintro ⟨⟨inner', after'⟩, hend, hpair⟩
      cases hpair
      obtain ⟨hcs, hfirst⟩ := ih.mp hend
      refine ⟨congrArg (c :: ·) hcs, fun i hi => ?_⟩
      cases i with
      | zero =>
        rintro ⟨more, hmore⟩
        cases hmore
        exact hne _ rfl rfl
      | succ i => exact hfirst i (Nat.lt_of_succ_lt_succ hi)
    · rintro ⟨hcs, hfirst⟩
      cases inner with
      | nil =>
        cases hcs
        exact absurd rfl (hne _ rfl)
      | cons d inner =>
        cases hcs
        refine ⟨(inner, after), ih.mpr ⟨rfl, fun i hi => ?_⟩, rfl⟩
        exact hfirst (i + 1) (Nat.succ_lt_succ hi)

theorem outputEnd?_eq_some_iff :
    outputEnd? cs = some (inner, after) ↔
      cs = inner ++ '}' :: '}' :: after ∧
        ∀ i < inner.length, ¬ StandsAt ['}', '}'] cs i ∧ ¬ StandsAt ['{', '%'] cs i := by
  fun_induction outputEnd? cs generalizing inner with
  | case1 => simp
  | case2 after' =>
    constructor
    · rintro ⟨⟩
      exact ⟨rfl, fun i hi => absurd hi (Nat.not_lt_zero i)⟩
    · rintro ⟨hcs, hfirst⟩
      cases inner with
      | nil =>
        cases hcs
        rfl
      | cons d inner => exact absurd ⟨after', rfl⟩ (hfirst 0 (Nat.zero_lt_succ _)).1
  | case3 more =>
    refine iff_of_false (Option.some_ne_none _).symm ?_
    rintro ⟨hcs, hfirst⟩
    cases inner with
    | nil => cases hcs
    | cons d inner => exact (hfirst 0 (Nat.zero_lt_succ _)).2 ⟨more, rfl⟩
  | case4 c cs hne hno ih =>
    rw [Option.map_eq_some_iff]
    constructor
    · rintro ⟨⟨inner', after'⟩, hend, hpair⟩
      cases hpair
      obtain ⟨hcs, hfirst⟩ := ih.mp hend
      refine ⟨congrArg (c :: ·) hcs, fun i hi => ?_⟩
      cases i with
      | zero =>
        constructor
        · rintro ⟨more, hmore⟩
          cases hmore
          exact hne _ rfl rfl
        · rintro ⟨more, hmore⟩
          cases hmore
          exact hno _ rfl rfl
      | succ i => exact hfirst i (Nat.lt_of_succ_lt_succ hi)
    · rintro ⟨hcs, hfirst⟩
      cases inner with
      | nil =>
        cases hcs
        exact absurd rfl (hne _ rfl)
      | cons d inner =>
        cases hcs
        refine ⟨(inner, after), ih.mpr ⟨rfl, fun i hi => ?_⟩, rfl⟩
        exact hfirst (i + 1) (Nat.succ_lt_succ hi)

/-! ## Markers -/

theorem spans_iff {a b c d : Char} :
    Spans [a, b] [c, d] v ↔
      ∃ inner, v = a :: b :: (inner ++ [c, d]) ∧
        ∀ i < inner.length, ¬ StandsAt [c, d] (inner ++ [c, d]) i := by
  constructor
  · rintro ⟨⟨more, rfl⟩, ⟨i, htwo, hlen, hcloser⟩, hfirst⟩
    obtain ⟨i, rfl⟩ := Nat.exists_eq_add_of_le' htwo
    have hend : [c, d] = more.drop i := hcloser.eq_of_length (by simp at hlen ⊢; omega)
    have hmore : more = more.take i ++ [c, d] := by rw [hend, List.take_append_drop]
    refine ⟨more.take i, congrArg (a :: b :: ·) hmore, fun j hj hstands => ?_⟩
    rw [← hmore] at hstands
    have hj' := hfirst (j + 2) (Nat.le_add_left 2 j) hstands
    rw [List.length_take] at hj
    omega
  · rintro ⟨inner, rfl, hnone⟩
    refine ⟨⟨inner ++ [c, d], rfl⟩, ⟨inner.length + 2, by omega, by simp, ?_⟩, ?_⟩
    · simp [StandsAt]
    · intro i htwo hstands
      obtain ⟨i, rfl⟩ := Nat.exists_eq_add_of_le' htwo
      have hfits := hstands.length_le (List.cons_ne_nil c [d])
      have hpast : ¬ i < inner.length := fun hlt => hnone i hlt hstands
      simp only [List.length_cons, List.length_append, List.length_nil] at hfits ⊢
      omega

theorem isMarker_tag_iff :
    IsMarker .tag v ↔ ∃ inner, v = '{' :: '%' :: (inner ++ ['%', '}']) ∧
      ∀ i < inner.length, ¬ StandsAt ['%', '}'] (inner ++ ['%', '}']) i := spans_iff

theorem isMarker_output_iff :
    IsMarker .output v ↔ ∃ inner, v = '{' :: '{' :: (inner ++ ['}', '}']) ∧
      ∀ i < inner.length, ¬ StandsAt ['}', '}'] (inner ++ ['}', '}']) i ∧
        ¬ StandsAt ['{', '%'] (inner ++ ['}', '}']) i := by
  constructor
  · rintro ⟨hspans, hopen⟩
    obtain ⟨inner, rfl, hnone⟩ := spans_iff.mp hspans
    exact ⟨inner, rfl, fun i hi => ⟨hnone i hi, hopen (i + 2) (Nat.le_add_left 2 i)⟩⟩
  · rintro ⟨inner, rfl, hnone⟩
    refine ⟨spans_iff.mpr ⟨inner, rfl, fun i hi => (hnone i hi).1⟩, fun i htwo hstands => ?_⟩
    obtain ⟨i, rfl⟩ := Nat.exists_eq_add_of_le' htwo
    have hfits := hstands.length_le (List.cons_ne_nil '{' ['%'])
    by_cases hi : i < inner.length
    · exact (hnone i hi).2 hstands
    · have hlast : i = inner.length := by
        simp only [List.length_cons, List.length_append, List.length_nil] at hfits
        omega
      subst hlast
      simp [StandsAt] at hstands

theorem marker?_eq_some_iff {kind : TokenKind} :
    marker? cs = some ((kind, v), after) ↔ IsMarker kind v ∧ cs = v ++ after := by
  constructor
  · intro h
    refine ⟨?_, marker?_eq_append h⟩
    unfold marker? at h
    split at h
    · obtain ⟨⟨inner, after'⟩, hend, hpair⟩ := Option.map_eq_some_iff.mp h
      cases hpair
      obtain ⟨rfl, hnone⟩ := tagEnd?_eq_some_iff.mp hend
      refine isMarker_tag_iff.mpr ⟨inner, rfl, fun i hi => ?_⟩
      exact (not_congr (StandsAt.before_closer_iff hi)).mp (hnone i hi)
    · obtain ⟨⟨inner, after'⟩, hend, hpair⟩ := Option.map_eq_some_iff.mp h
      cases hpair
      obtain ⟨rfl, hnone⟩ := outputEnd?_eq_some_iff.mp hend
      refine isMarker_output_iff.mpr ⟨inner, rfl, fun i hi => ?_⟩
      obtain ⟨hend, hopen⟩ := hnone i hi
      exact ⟨(not_congr (StandsAt.before_closer_iff hi)).mp hend,
        (not_congr (StandsAt.before_closer_iff hi)).mp hopen⟩
    · contradiction
  · rintro ⟨hmarker, rfl⟩
    cases kind with
    | text => contradiction
    | tag =>
      obtain ⟨inner, rfl, hnone⟩ := isMarker_tag_iff.mp hmarker
      have hend : tagEnd? (inner ++ '%' :: '}' :: after) = some (inner, after) := by
        refine tagEnd?_eq_some_iff.mpr ⟨rfl, fun i hi => ?_⟩
        exact (not_congr (StandsAt.before_closer_iff hi)).mpr (hnone i hi)
      simp [marker?, hend]
    | output =>
      obtain ⟨inner, rfl, hnone⟩ := isMarker_output_iff.mp hmarker
      have hend : outputEnd? (inner ++ '}' :: '}' :: after) = some (inner, after) := by
        refine outputEnd?_eq_some_iff.mpr ⟨rfl, fun i hi => ?_⟩
        obtain ⟨hend, hopen⟩ := hnone i hi
        exact ⟨(not_congr (StandsAt.before_closer_iff hi)).mpr hend,
          (not_congr (StandsAt.before_closer_iff hi)).mpr hopen⟩
      simp [marker?, hend]

theorem marker?_eq_none_iff :
    marker? cs = none ↔ ∀ kind v, IsMarker kind v → ¬ v <+: cs := by
  constructor
  · rintro hnone kind v hmarker ⟨after, rfl⟩
    have hsome : marker? (v ++ after) = some ((kind, v), after) :=
      marker?_eq_some_iff.mpr ⟨hmarker, rfl⟩
    cases hnone.symm.trans hsome
  · intro h
    refine Option.eq_none_iff_forall_ne_some.mpr ?_
    rintro ⟨⟨kind, v⟩, after⟩ hsome
    obtain ⟨hmarker, rfl⟩ := marker?_eq_some_iff.mp hsome
    exact h kind v hmarker (List.prefix_append v after)

theorem IsMarker.ne_nil {kind : TokenKind} (h : IsMarker kind v) : v ≠ [] := by
  rintro rfl
  have hsome := marker?_eq_some_iff.mpr ⟨h, (List.append_nil []).symm⟩
  contradiction

end

/-! ## The rules, token by token -/

section

variable {line : Nat} {cs : List Char} {t : Token} {ts : List Token}

theorem text_cons (t : Token) (ts : List Token) :
    Literal.text (t :: ts) = t.value.toList ++ Literal.text ts := rfl

theorem cuts_nil_iff : Cuts line cs [] ↔ cs = [] := by
  constructor
  · exact fun h => h.text.symm
  · rintro rfl
    refine ⟨rfl, nofun, ?_, nofun, ?_, ?_⟩ <;> simp

/-- What the rules say of the first token, with the text and the tokens that follow it. -/
structure Leading (line : Nat) (rest : List Char) (t : Token) (ts : List Token) : Prop where
  nonempty : t.value ≠ ""
  apart : t.kind = .text → ∀ u more, ts = u :: more → u.kind ≠ .text
  isMarker : t.kind ≠ .text → IsMarker t.kind t.value.toList
  plain : t.kind = .text → ∀ i < t.value.length,
    marker? ((t.value.toList ++ rest).drop i) = none
  starts : t.line = line

theorem Cuts.leading (h : Cuts line cs (t :: ts)) : Leading line (Literal.text ts) t ts where
  nonempty := h.nonempty t List.mem_cons_self
  apart := by
    rintro hkind u more rfl hkind'
    exact h.apart [] t u more rfl ⟨hkind, hkind'⟩
  isMarker := h.markers t List.mem_cons_self
  plain := by
    intro hkind i hi
    refine marker?_eq_none_iff.mpr fun kind v hmarker hstands => ?_
    refine h.plain [] t ts rfl hkind i hi kind v hmarker ?_
    rw [← h.text]
    exact StandsAt.after_iff.mpr hstands
  starts := h.lines [] t ts rfl

theorem Cuts.tail (h : Cuts line cs (t :: ts)) :
    Cuts (line + t.value.toList.count '\n') (Literal.text ts) ts where
  text := rfl
  nonempty u hu := h.nonempty u (List.mem_cons_of_mem t hu)
  apart := by
    rintro before u w after rfl
    exact h.apart (t :: before) u w after rfl
  markers u hu := h.markers u (List.mem_cons_of_mem t hu)
  plain := by
    rintro before u after rfl hkind i hi kind v hmarker hstands
    refine h.plain (t :: before) u after rfl hkind i hi kind v hmarker ?_
    rw [← h.text, text_cons, text_cons, List.length_append, Nat.add_assoc]
    exact StandsAt.after_iff.mpr hstands
  lines := by
    rintro before u after rfl
    rw [h.lines (t :: before) u after rfl, text_cons, List.count_append, Nat.add_assoc]

theorem Leading.cuts {rest : List Char} (h : Leading line rest t ts)
    (hcuts : Cuts (line + t.value.toList.count '\n') rest ts) :
    Cuts line (t.value.toList ++ rest) (t :: ts) where
  text := by rw [text_cons, hcuts.text]
  nonempty := by
    rintro u (_ | ⟨_, hu⟩)
    · exact h.nonempty
    · exact hcuts.nonempty u hu
  apart := by
    rintro before u w after heq ⟨hkind, hkind'⟩
    cases before with
    | nil =>
      cases heq
      exact h.apart hkind w after rfl hkind'
    | cons _ before =>
      cases heq
      exact hcuts.apart before u w after rfl ⟨hkind, hkind'⟩
  markers := by
    rintro u (_ | ⟨_, hu⟩)
    · exact h.isMarker
    · exact hcuts.markers u hu
  plain := by
    intro before u after heq hkind i hi kind v hmarker hstands
    cases before with
    | nil =>
      cases heq
      have hnone := marker?_eq_none_iff.mp (h.plain hkind i hi)
      exact hnone kind v hmarker (StandsAt.after_iff.mp hstands)
    | cons _ before =>
      cases heq
      rw [text_cons, List.length_append, Nat.add_assoc] at hstands
      exact hcuts.plain before u after rfl hkind i hi kind v hmarker (StandsAt.after_iff.mp hstands)
  lines := by
    intro before u after heq
    cases before with
    | nil =>
      cases heq
      exact h.starts
    | cons _ before =>
      cases heq
      rw [hcuts.lines before u after rfl, text_cons, List.count_append, Nat.add_assoc]

end

/-! ## The tokens of a text -/

theorem consText_cases (c : Char) (ps : List Piece) :
    (∃ v more, ps = (.text, v) :: more ∧ consText c ps = (.text, c :: v) :: more) ∨
      (∀ p more, ps = p :: more → p.1 ≠ .text) ∧ consText c ps = (.text, [c]) :: ps := by
  cases ps with
  | nil => exact .inr ⟨nofun, rfl⟩
  | cons p more =>
    obtain ⟨kind, v⟩ := p
    cases kind with
    | text => exact .inl ⟨v, more, rfl, rfl⟩
    | output => exact .inr ⟨fun _ _ heq => (List.cons.inj heq).1 ▸ nofun, rfl⟩
    | tag => exact .inr ⟨fun _ _ heq => (List.cons.inj heq).1 ▸ nofun, rfl⟩

theorem pieces_text_append {v rest : List Char} (hne : v ≠ [])
    (hplain : ∀ i < v.length, marker? ((v ++ rest).drop i) = none)
    (happart : ∀ p more, pieces rest = p :: more → p.1 ≠ .text) :
    pieces (v ++ rest) = (.text, v) :: pieces rest := by
  induction v with
  | nil => contradiction
  | cons c v ih =>
    have hhead : marker? (c :: (v ++ rest)) = none := hplain 0 (Nat.zero_lt_succ _)
    rw [List.cons_append, pieces_of_none hhead]
    cases v with
    | nil =>
      obtain ⟨v, more, heq, -⟩ | ⟨-, hcons⟩ := consText_cases c (pieces rest)
      · exact absurd rfl (happart _ _ heq)
      · exact hcons
    | cons d v =>
      rw [ih (List.cons_ne_nil d v) fun i hi => hplain (i + 1) (Nat.succ_lt_succ hi)]
      rfl

theorem ofList_ne_empty {v : List Char} (h : v ≠ []) : String.ofList v ≠ "" := by
  simpa using h

theorem Leading.of_marker {kind : TokenKind} {v : List Char} (h : IsMarker kind v) (line : Nat)
    (rest : List Char) (ts : List Token) :
    Leading line rest ⟨kind, String.ofList v, line⟩ ts where
  nonempty := ofList_ne_empty h.ne_nil
  apart := by
    rintro rfl
    contradiction
  isMarker _ := by rwa [String.toList_ofList]
  plain := by
    rintro rfl
    contradiction
  starts := rfl

theorem Leading.of_text {v rest : List Char} {ts : List Token} (line : Nat) (hne : v ≠ [])
    (hplain : ∀ i < v.length, marker? ((v ++ rest).drop i) = none)
    (hapart : ∀ u more, ts = u :: more → u.kind ≠ .text) :
    Leading line rest ⟨.text, String.ofList v, line⟩ ts where
  nonempty := ofList_ne_empty hne
  apart _ := hapart
  isMarker := nofun
  plain := by simpa using hplain
  starts := rfl

theorem cuts_number_cons {line : Nat} {kind : TokenKind} {v rest : List Char} {ps : List Piece}
    (h : Leading line rest ⟨kind, String.ofList v, line⟩ (number (line + v.count '\n') ps))
    (hcuts : Cuts (line + v.count '\n') rest (number (line + v.count '\n') ps)) :
    Cuts line (v ++ rest) (number line ((kind, v) :: ps)) := by
  have hv : (String.ofList v).toList = v := String.toList_ofList
  have hall := h.cuts (by rwa [hv])
  rwa [hv] at hall

theorem number_eq_cons {line : Nat} {ps : List Piece} {t : Token} {ts : List Token}
    (h : number line ps = t :: ts) : ∃ p more, ps = p :: more ∧ t.kind = p.1 := by
  cases ps with
  | nil => contradiction
  | cons p more =>
    cases h
    exact ⟨p, more, rfl, rfl⟩

/-- The rules hold of what the tokenizer finds. -/
theorem cuts_number_pieces (line : Nat) (cs : List Char) :
    Cuts line cs (number line (pieces cs)) := by
  fun_induction pieces cs generalizing line with
  | case1 => exact cuts_nil_iff.mpr rfl
  | case2 c rest m after h ih =>
    obtain ⟨hmarker, htext⟩ := marker?_eq_some_iff.mp h
    rw [htext]
    exact cuts_number_cons (Leading.of_marker hmarker line after _) (ih _)
  | case3 c rest h ih =>
    obtain ⟨v, more, hps, hcons⟩ | ⟨hapart, hcons⟩ := consText_cases c (pieces rest)
    · -- The character joins the text that follows it.
      rw [hps] at ih
      have htext : v ++ flatten more = rest := by
        rw [← flatten_pieces rest, hps]
        rfl
      have hleading := (ih line).leading
      have htail := (ih (line + [c].count '\n')).tail
      rw [Literal.text, text_number] at hleading htail
      have hcount : line + (c :: v).count '\n' = line + [c].count '\n' + v.count '\n' := by
        rw [Nat.add_assoc, ← List.count_append]
        rfl
      rw [hcons, ← htext, ← List.cons_append]
      refine cuts_number_cons (Leading.of_text line (List.cons_ne_nil c v) ?_ ?_) ?_
      · intro i hi
        cases i with
        | zero => simpa [htext] using h
        | succ i => simpa using hleading.plain rfl i (by simpa using hi)
      · intro u more' heq
        obtain ⟨p, more'', rfl, hkind⟩ := number_eq_cons heq
        rw [hkind]
        exact hleading.apart rfl _ _ rfl
      · rw [hcount]
        simpa using htail
    · rw [hcons]
      refine cuts_number_cons (Leading.of_text line (List.cons_ne_nil c []) ?_ ?_) (ih _)
      · intro i hi
        obtain rfl : i = 0 := by simpa using hi
        exact h
      · intro u more heq
        obtain ⟨p, more', hps, hkind⟩ := number_eq_cons heq
        rw [hkind]
        exact hapart p more' hps

/-- No other tokens follow the rules. -/
theorem Cuts.eq_number {line : Nat} {cs : List Char} {ts : List Token} (h : Cuts line cs ts) :
    ts = number line (pieces cs) := by
  induction ts generalizing line cs with
  | nil =>
    rw [cuts_nil_iff.mp h, pieces_nil]
    rfl
  | cons t ts ih =>
    have hleading := h.leading
    have hts := ih h.tail
    have hpieces : pieces cs = (t.kind, t.value.toList) :: pieces (Literal.text ts) := by
      rw [← h.text, text_cons]
      by_cases hkind : t.kind = .text
      · rw [hkind]
        refine pieces_text_append ?_ (hleading.plain hkind) ?_
        · simpa using hleading.nonempty
        · intro p more heq
          rw [heq] at hts
          exact hleading.apart hkind _ _ hts
      · exact pieces_of_marker (marker?_eq_some_iff.mpr ⟨hleading.isMarker hkind, rfl⟩)
    rw [hpieces, number, ← hts, String.ofList_toList, ← hleading.starts]

/-- The tokenizer cuts a source as the rules say, and there is no other way to follow them. -/
theorem all_eq_iff_cuts (source : String) (ts : List Token) :
    all source = ts ↔ Cuts 1 source.toList ts := by
  constructor
  · rintro rfl
    exact cuts_number_pieces 1 source.toList
  · exact fun h => h.eq_number.symm

end Token

end Stencil
