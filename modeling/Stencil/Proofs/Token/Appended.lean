import Stencil.Proofs.Text.Blank
import Stencil.Proofs.Token.Rules

/-!
# A tag after a text

A tag that is put after a text is a token of its own, and leaves the tokens of the text as they are,
unless the text ends inside of a tag: then that tag takes it in, and ends where it ends.
-/

namespace Stencil

open Text

/-! ## Words -/

/-- What a tag can be called. -/
structure IsWord (name : List Char) : Prop where
  ne_nil : name ≠ []
  word : ∀ c ∈ name, isWordChar c = true

/-- A tag that says nothing but its name. -/
def bareTag (name : List Char) : List Char := '{' :: '%' :: ' ' :: (name ++ [' ', '%', '}'])

theorem ne_of_isWordChar {c d : Char} (hc : isWordChar c = true) (hd : isWordChar d = false) :
    c ≠ d := by
  rintro rfl
  cases hc.symm.trans hd

theorem IsWord.not_mem {name : List Char} {d : Char} (h : IsWord name)
    (hd : isWordChar d = false) : d ∉ name := fun hmem => ne_of_isWordChar (h.word d hmem) hd rfl

theorem IsWord.not_isBlank {name : List Char} (h : IsWord name) :
    ∀ c ∈ name, isBlank c = false := fun c hc =>
  not_isBlank_of_isNameChar (by simp [isNameChar, h.word c hc])

theorem IsWord.trim_eq {name : List Char} (h : IsWord name) : trim name = name :=
  trim_eq_self h.not_isBlank

namespace Token

/-! ## Ends of tags -/

theorem tagEnd?_append_plain {cs : List Char} (h : '%' ∉ cs) (rest : List Char) :
    tagEnd? (cs ++ rest) = (tagEnd? rest).map fun (inner, after) => (cs ++ inner, after) := by
  induction cs with
  | nil => exact Option.map_id'.symm
  | cons c cs ih =>
    obtain ⟨hc, hcs⟩ := List.ne_and_not_mem_of_not_mem_cons h
    have hhead : ∀ more, c :: (cs ++ rest) ≠ '%' :: '}' :: more := fun more heq =>
      hc (List.cons.inj heq).1.symm
    rw [List.cons_append, tagEnd?_cons hhead, ih hcs, Option.map_map]
    rfl

section

variable {name : List Char} (h : IsWord name)

include h

theorem tagEnd?_bareTag (rest : List Char) :
    tagEnd? (' ' :: (name ++ [' ', '%', '}']) ++ rest) = some (' ' :: (name ++ [' ']), rest) := by
  have hplain : '%' ∉ ' ' :: (name ++ [' ']) := by
    have hname : '%' ∉ name := h.not_mem (by decide +kernel)
    simpa using hname
  have hend : tagEnd? ('%' :: '}' :: rest) = some ([], rest) := rfl
  have hcut := tagEnd?_append_plain hplain ('%' :: '}' :: rest)
  rw [hend] at hcut
  simpa using hcut

theorem marker?_bareTag (rest : List Char) :
    marker? (bareTag name ++ rest) = some ((.tag, bareTag name), rest) := by
  unfold bareTag
  rw [List.cons_append, List.cons_append, marker?_tag, tagEnd?_bareTag h]
  simp

theorem marker?_open_tag_bareTag {cs : List Char} (hopen : marker? ('{' :: '%' :: cs) = none) :
    marker? ('{' :: '%' :: cs ++ bareTag name) =
      some ((.tag, '{' :: '%' :: cs ++ bareTag name), []) := by
  have hend := tagEnd?_bareTag h []
  rw [List.append_nil] at hend
  unfold bareTag
  rw [marker?_append_of_open_tag hopen, tagEnd?_cons (by simp), tagEnd?_cons (by simp), hend]
  simp

/-- A brace does not open an output marker with that of the tag, in which no marker ends. -/
theorem marker?_brace_bareTag : marker? ('{' :: bareTag name) = none := by
  have hplain : ∀ c ∈ '%' :: ' ' :: (name ++ [' ', '%']), c ≠ '}' ∧ c ≠ '{' := by
    have hclose : '}' ∉ name := h.not_mem (by decide +kernel)
    have hopen : '{' ∉ name := h.not_mem (by decide +kernel)
    intro c hc
    constructor
    · rintro rfl
      simp [hclose] at hc
    · rintro rfl
      simp [hopen] at hc
  have hend := outputEnd?_append_plain hplain ['}']
  unfold bareTag
  rw [marker?_output, show '%' :: ' ' :: (name ++ [' ', '%', '}']) =
    '%' :: ' ' :: (name ++ [' ', '%']) ++ ['}'] by simp, hend]
  rfl

end

/-! ## Open tags -/

/-- A tag is open at the end of a text: there is the opener of one among its pieces of text. -/
def LeavesTagOpen (ps : List Piece) : Prop := ∃ cs, (.text, cs) ∈ ps ∧ ['{', '%'] <:+: cs

theorem LeavesTagOpen.cons {ps : List Piece} (h : LeavesTagOpen ps) (p : Piece) :
    LeavesTagOpen (p :: ps) := by
  obtain ⟨cs, hcs, hopener⟩ := h
  exact ⟨cs, List.mem_cons_of_mem p hcs, hopener⟩

theorem LeavesTagOpen.consText {ps : List Piece} (h : LeavesTagOpen ps) (c : Char) :
    LeavesTagOpen (consText c ps) := by
  obtain ⟨cs, hcs, hopener⟩ := h
  obtain ⟨v, more, rfl, hcons⟩ | ⟨-, hcons⟩ := consText_cases c ps
  · rw [hcons]
    rcases List.mem_cons.mp hcs with heq | hmore
    · cases heq
      exact ⟨c :: cs, List.mem_cons_self, List.infix_cons hopener⟩
    · exact ⟨cs, List.mem_cons_of_mem _ hmore, hopener⟩
  · rw [hcons]
    exact ⟨cs, List.mem_cons_of_mem _ hcs, hopener⟩

theorem leavesTagOpen_of_none {cs : List Char} (h : marker? ('{' :: '%' :: cs) = none) :
    LeavesTagOpen (pieces ('{' :: '%' :: cs)) := by
  have hpercent : marker? ('%' :: cs) = none := rfl
  rw [pieces_of_none h, pieces_of_none hpercent]
  obtain ⟨text, more, htext⟩ : ∃ text more,
      consText '%' (pieces cs) = (.text, '%' :: text) :: more := by
    unfold Token.consText
    split <;> exact ⟨_, _, rfl⟩
  rw [htext]
  exact ⟨_, List.mem_cons_self, (List.prefix_append ['{', '%'] text).isInfix⟩

/-! ## Pieces -/

theorem mem_consText_iff {c : Char} {ps : List Piece} {p : Piece} (hp : p.1 ≠ .text) :
    p ∈ consText c ps ↔ p ∈ ps := by
  have hne : ∀ cs, p ≠ (.text, cs) := by
    rintro cs rfl
    exact hp rfl
  unfold consText
  split <;> simp [hne]

/--
How a text with a tag after it is cut: into pieces and a tag, which may have a part of the text
before it. The markers among the pieces are markers of the text.
-/
structure CutsBefore (tag cs : List Char) (ps : List Piece) (last : List Char) : Prop where
  pieces : pieces (cs ++ tag) = ps ++ [(.tag, last ++ tag)]
  markers : ∀ p ∈ ps, p.1 ≠ .text → p ∈ Token.pieces cs
  closed : ¬ LeavesTagOpen (Token.pieces cs) → last = [] ∧ ps = Token.pieces cs

theorem exists_cutsBefore {name : List Char} (h : IsWord name) (cs : List Char) :
    ∃ ps last, CutsBefore (bareTag name) cs ps last := by
  fun_induction pieces cs with
  | case1 =>
    refine ⟨[], [], ?_, List.forall_mem_nil _, fun _ => ⟨rfl, pieces_nil.symm⟩⟩
    have hmarker := marker?_bareTag h []
    rw [List.append_nil] at hmarker
    simpa using pieces_of_marker hmarker
  | case2 c cs m after hmarker ih =>
    obtain ⟨ps, last, hpieces, hmarkers, hclosed⟩ := ih
    have hcut := pieces_of_marker hmarker
    refine ⟨m :: ps, last, ?_, ?_, ?_⟩
    · rw [pieces_append_of_marker hmarker, hpieces]
      rfl
    · rw [hcut]
      rintro p (_ | ⟨_, hp⟩) hkind
      · exact List.mem_cons_self
      · exact List.mem_cons_of_mem m (hmarkers p hp hkind)
    · rw [hcut]
      intro hopen
      obtain ⟨rfl, rfl⟩ := hclosed fun hafter => hopen (hafter.cons m)
      exact ⟨rfl, rfl⟩
  | case3 c cs hmarker ih =>
    have hcut := pieces_of_none hmarker
    by_cases hopener : ∃ more, c :: cs = '{' :: '%' :: more
    · obtain ⟨more, heq⟩ := hopener
      rw [heq] at hmarker ⊢
      have hpieces := pieces_of_marker (marker?_open_tag_bareTag h hmarker)
      rw [pieces_nil] at hpieces
      exact ⟨[], _, hpieces, List.forall_mem_nil _,
        fun hopen => absurd (leavesTagOpen_of_none hmarker) hopen⟩
    · have hnone : marker? (c :: (cs ++ bareTag name)) = none := by
        by_cases hbrace : c :: cs = ['{']
        · cases hbrace
          exact marker?_brace_bareTag h
        · exact marker?_append_of_none hmarker (fun more heq => hopener ⟨more, heq⟩) hbrace _
      obtain ⟨ps, last, hpieces, hmarkers, hclosed⟩ := ih
      have hkind : TokenKind.tag ≠ .text := by decide
      refine ⟨consText c ps, last, ?_, ?_, ?_⟩
      · rw [List.cons_append, pieces_of_none hnone, hpieces, consText_append c ps hkind]
      · intro p hp hkind
        rw [hcut, mem_consText_iff hkind]
        exact hmarkers p ((mem_consText_iff hkind).mp hp) hkind
      · rw [hcut]
        intro hopen
        obtain ⟨rfl, rfl⟩ := hclosed fun hcs => hopen (hcs.consText c)
        exact ⟨rfl, rfl⟩

/-! ## Numbering -/

theorem mem_of_mem_number {line : Nat} {ps : List Piece} {t : Token} (h : t ∈ number line ps) :
    (t.kind, t.value.toList) ∈ ps := by
  induction ps generalizing line with
  | nil => contradiction
  | cons p ps ih =>
    rcases List.mem_cons.mp h with rfl | hps
    · simp
    · exact List.mem_cons_of_mem p (ih hps)

theorem exists_mem_number (line : Nat) {ps : List Piece} {p : Piece} (h : p ∈ ps) :
    ∃ t ∈ number line ps, t.value.toList = p.2 := by
  induction ps generalizing line with
  | nil => contradiction
  | cons q ps ih =>
    rcases List.mem_cons.mp h with rfl | hps
    · exact ⟨_, List.mem_cons_self, String.toList_ofList⟩
    · obtain ⟨t, ht, hvalue⟩ := ih (line + q.2.count '\n') hps
      exact ⟨t, List.mem_cons_of_mem _ ht, hvalue⟩

theorem exists_marker_of_all {source : String} {t : Token} {ts : List Token}
    (h : all source = t :: ts) (hkind : t.kind ≠ .text) :
    ∃ after, marker? source.toList = some ((t.kind, t.value.toList), after) ∧ t.line = 1 ∧
      ts = number (1 + t.value.toList.count '\n') (pieces after) := by
  unfold all at h
  cases hsource : source.toList with
  | nil =>
    rw [hsource, pieces_nil] at h
    cases h
  | cons c cs =>
    rw [hsource] at h
    cases hmarker : marker? (c :: cs) with
    | some found =>
      obtain ⟨⟨kind, v⟩, after⟩ := found
      rw [pieces_of_marker hmarker] at h
      cases h
      refine ⟨after, ?_, rfl, ?_⟩ <;> simp
    | none =>
      rw [pieces_of_none hmarker] at h
      obtain ⟨v, more, -, hcons⟩ | ⟨-, hcons⟩ := consText_cases c (pieces cs)
      · rw [hcons] at h
        cases h
        exact absurd rfl hkind
      · rw [hcons] at h
        cases h
        exact absurd rfl hkind

end Token

/-! ## Closing markers -/

namespace Literal

theorem lastMarker?_eq_append {value leading name : List Char}
    (h : lastMarker? value = some (leading, name)) :
    ∃ inner, value = leading ++ '{' :: '%' :: inner ∧ name ≠ [] ∧
      name = markerName (inner.take (inner.length - 2)) := by
  fun_induction lastMarker? value generalizing leading with
  | case1 => contradiction
  | case2 c rest leading' name' heq ih =>
    cases h
    obtain ⟨inner, rfl, hname⟩ := ih heq
    exact ⟨inner, rfl, hname⟩
  | case3 => contradiction
  | case4 inner found hfound =>
    obtain ⟨rfl, rfl⟩ := Prod.mk.inj (Option.some.inj h)
    exact ⟨inner, rfl, hfound, rfl⟩
  | case5 => contradiction

theorem tagEnd?_isSome (cs after : List Char) :
    (Token.tagEnd? (cs ++ '%' :: '}' :: after)).isSome := by
  induction cs with
  | nil => rfl
  | cons c cs ih =>
    by_cases hhead : ∃ more, c :: (cs ++ '%' :: '}' :: after) = '%' :: '}' :: more
    · obtain ⟨more, heq⟩ := hhead
      rw [List.cons_append, heq]
      rfl
    · rw [List.cons_append, Token.tagEnd?_cons fun more heq => hhead ⟨more, heq⟩, Option.isSome_map]
      exact ih

theorem exists_tag_of_closing? {block : String} {value leading : List Char}
    (h : closing? block value = some leading) :
    ∃ v, Token.IsMarker .tag v ∧ leading.length < value.length ∧
      StandsAt v value leading.length := by
  obtain ⟨hsuffix, hlast⟩ := closing?_eq_some_iff.mp h
  obtain ⟨inner, rfl, hne, hname⟩ := lastMarker?_eq_append hlast
  have hlength : 2 ≤ inner.length := by
    by_contra hshort
    rw [show inner.length - 2 = 0 by omega] at hname
    exact hne hname
  have hinner : ['%', '}'] <:+ inner :=
    List.suffix_of_suffix_length_le hsuffix ⟨leading ++ ['{', '%'], by simp⟩ hlength
  obtain ⟨front, rfl⟩ := hinner
  obtain ⟨⟨tag, after⟩, htag⟩ := Option.isSome_iff_exists.mp (tagEnd?_isSome front [])
  have hmarker : Token.marker? ('{' :: '%' :: (front ++ ['%', '}'])) =
      some ((.tag, '{' :: '%' :: tag ++ ['%', '}']), after) := by
    rw [Token.marker?_tag, htag]
    rfl
  obtain ⟨hmarker, hcut⟩ := Token.marker?_eq_some_iff.mp hmarker
  refine ⟨_, hmarker, by simp, ?_⟩
  unfold StandsAt
  rw [List.drop_left, hcut]
  exact List.prefix_append _ _

theorem closing?_of_text {source : String} {t : Token} (ht : t ∈ Token.all source)
    (hkind : t.kind = .text) (block : String) : closing? block t.value.toList = none := by
  apply Option.eq_none_iff_forall_ne_some.mpr
  intro leading hclosing
  obtain ⟨v, hmarker, hlength, hstands⟩ := exists_tag_of_closing? hclosing
  have hcuts : Token.Cuts 1 source.toList (Token.all source) :=
    Token.cuts_number_pieces 1 source.toList
  obtain ⟨before, after, hsplit⟩ := List.append_of_mem ht
  refine hcuts.plain before t after hsplit hkind leading.length hlength _ v hmarker ?_
  have hsource : source.toList = text before ++ (t.value.toList ++ text after) := by
    rw [← hcuts.text, hsplit]
    simp [text]
  rw [hsource, StandsAt.after_iff]
  unfold StandsAt
  rw [List.drop_append_of_le_length (Nat.le_of_lt hlength)]
  exact List.IsPrefix.trans hstands (List.prefix_append _ _)

theorem markerName_word {name : List Char} (h : IsWord name) :
    markerName (' ' :: (name ++ [' '])) = name := by
  obtain ⟨c, cs, rfl⟩ := List.exists_cons_of_ne_nil h.ne_nil
  have hblank : isBlank c = false := h.not_isBlank c List.mem_cons_self
  have hspace : isWordChar ' ' = false := by decide +kernel
  have hstart : trimStart (' ' :: (c :: cs ++ [' '])) = c :: cs ++ [' '] := by
    rw [trimStart, List.dropWhile_cons_of_pos rfl]
    exact List.dropWhile_cons_of_neg (by simp [hblank])
  show (trimStart (' ' :: (c :: cs ++ [' ']))).takeWhile isWordChar = c :: cs
  rw [hstart, List.takeWhile_append_of_pos h.word, List.takeWhile_cons_of_neg (by simp [hspace]),
    List.append_nil]

theorem lastMarker?_bareTag {name : List Char} (h : IsWord name) :
    lastMarker? (bareTag name) = some ([], name) := by
  have hrest : lastMarker? ('%' :: ' ' :: (name ++ [' ', '%', '}'])) = none := by
    refine Option.eq_none_iff_forall_ne_some.mpr ?_
    rintro ⟨leading, found⟩ hfound
    obtain ⟨inner, heq, -⟩ := lastMarker?_eq_append hfound
    have hbrace : '{' ∈ '%' :: ' ' :: (name ++ [' ', '%', '}']) := by
      rw [heq]
      simp
    have hname : '{' ∉ name := h.not_mem (by decide +kernel)
    simp [hname] at hbrace
  have hinner : (' ' :: (name ++ [' ', '%', '}'])).take (name.length + 2) =
      ' ' :: (name ++ [' ']) := by
    rw [show ' ' :: (name ++ [' ', '%', '}']) = ' ' :: (name ++ [' ']) ++ ['%', '}'] by simp]
    exact List.take_left' (by simp)
  unfold bareTag
  rw [lastMarker?.eq_def]
  simp [hrest, hinner, markerName_word h, h.ne_nil]

theorem closing?_bareTag {block : String} (h : IsWord ("end" ++ block).toList)
    (leading : List Char) :
    closing? block (leading ++ bareTag ("end" ++ block).toList) = some leading := by
  have hclosing : closing? block (bareTag ("end" ++ block).toList) = some [] := by
    refine closing?_eq_some_iff.mpr
      ⟨⟨['{', '%', ' '] ++ (("end" ++ block).toList ++ [' ']), ?_⟩, ?_⟩
    · simp [bareTag]
    · rw [lastMarker?_bareTag h, String.toList_append]
  rw [closing?_append leading hclosing, List.append_nil]

end Literal

end Stencil
