import Stencil.Proofs.Literal.Closing
import Stencil.Proofs.Token.Pieces

/-!
# What passes through a raw block

The lexer knows nothing of raw blocks. It reads the body of one as it reads any text, and finds the
closing tag all the same, unless a brace at the end of the body joins up with the brace of the tag.
-/

namespace Stencil.Literal

open Token

/-! ## Braces at the end of a body -/

/-- The tag that closes a raw block. -/
def closer : List Char := ['{', '%', ' ', 'e', 'n', 'd', 'r', 'a', 'w', ' ', '%', '}']

/-- A text ends in a brace that opens, and no tag is open there. -/
structure Loose (body : List Char) : Prop where
  brace : body.getLast? = some '{'
  closed : ∀ cs, (.text, cs) ∈ pieces body → ¬ ['{', '%'] <:+: cs

/--
The brace at the end of the body and the one of the closing tag open an output marker: after the
tag, two braces close one before any other tag opens. The first of them may be that of the tag.
-/
def Swallowed (body rest : List Char) : Prop := Loose body ∧ (outputEnd? ('}' :: rest)).isSome

theorem loose_of_marker {body after : List Char} {m : Piece}
    (h : marker? body = some (m, after)) : Loose body ↔ Loose after := by
  have hpieces := pieces_of_marker h
  have hlast : body.getLast? = some '{' ↔ after.getLast? = some '{' := by
    obtain ⟨text, htext⟩ := marker?_concat h
    rw [marker?_eq_append h, htext, List.getLast?_append, List.getLast?_concat]
    cases after.getLast? <;> simp
  have htexts : ∀ cs, (TokenKind.text, cs) ∈ pieces body ↔ (TokenKind.text, cs) ∈ pieces after := by
    intro cs
    rw [hpieces, List.mem_cons]
    apply or_iff_right
    intro heq
    apply marker?_kind h
    rw [← heq]
  constructor
  · rintro ⟨hbrace, hclosed⟩
    exact ⟨hlast.mp hbrace, fun cs hcs => hclosed cs ((htexts cs).mpr hcs)⟩
  · rintro ⟨hbrace, hclosed⟩
    exact ⟨hlast.mpr hbrace, fun cs hcs => hclosed cs ((htexts cs).mp hcs)⟩

theorem not_loose_of_open_tag {cs : List Char} (h : marker? ('{' :: '%' :: cs) = none) :
    ¬ Loose ('{' :: '%' :: cs) := by
  rintro ⟨-, hclosed⟩
  have hpercent : marker? ('%' :: cs) = none := rfl
  rw [pieces_of_none h, pieces_of_none hpercent] at hclosed
  obtain ⟨text, more, htext⟩ : ∃ text more,
      consText '%' (pieces cs) = (.text, '%' :: text) :: more := by
    unfold consText
    split <;> exact ⟨_, _, rfl⟩
  rw [htext] at hclosed
  exact hclosed ('{' :: '%' :: text) List.mem_cons_self (List.prefix_append ['{', '%'] text).isInfix

theorem text_of_pieces_cons {cs first : List Char} {more : List Piece}
    (h : pieces cs = (.text, first) :: more) : first <+: cs := by
  rw [← flatten_pieces cs, h]
  exact List.prefix_append first _

theorem loose_of_text {c : Char} {cs : List Char} (h : marker? (c :: cs) = none)
    (hopen : ∀ more, c :: cs ≠ '{' :: '%' :: more) (hcs : cs ≠ []) :
    Loose (c :: cs) ↔ Loose cs := by
  have hlast : (c :: cs).getLast? = cs.getLast? := List.getLast?_cons_of_ne_nil hcs
  have hpieces := pieces_of_none h
  have hshort : ¬ ['{', '%'] <:+: [c] := fun hpart => by simpa using hpart.length_le
  have hclosed : (∀ text, (TokenKind.text, text) ∈ pieces (c :: cs) → ¬ ['{', '%'] <:+: text) ↔
      ∀ text, (TokenKind.text, text) ∈ pieces cs → ¬ ['{', '%'] <:+: text := by
    rw [hpieces]
    cases hcut : pieces cs with
    | nil => simp [consText, hshort]
    | cons p ps =>
      obtain ⟨kind, first⟩ := p
      cases kind with
      | text =>
        have hpart : ['{', '%'] <:+: c :: first ↔ ['{', '%'] <:+: first := by
          rw [List.infix_cons_iff]
          apply or_iff_right
          intro hprefix
          obtain ⟨more, hmore⟩ := hprefix.trans
            (List.cons_prefix_cons.mpr ⟨rfl, text_of_pieces_cons hcut⟩)
          exact hopen more hmore.symm
        simp [consText, hpart]
      | _ => simp [consText, hshort]
  constructor
  · rintro ⟨hbrace, hc⟩
    exact ⟨hlast ▸ hbrace, hclosed.mp hc⟩
  · rintro ⟨hbrace, hc⟩
    exact ⟨hlast ▸ hbrace, hclosed.mpr hc⟩

theorem not_loose_nil : ¬ Loose [] := fun h => nomatch h.brace

theorem loose_brace : Loose ['{'] := by
  have hpieces : pieces ['{'] = [(.text, ['{'])] := by
    rw [pieces_of_none rfl, pieces_nil]
    rfl
  refine ⟨rfl, fun cs hcs hpart => ?_⟩
  rw [hpieces] at hcs
  cases List.mem_singleton.mp hcs
  simpa using hpart.length_le

/-! ## The closing tag -/

section

variable {rest inner after : List Char}

theorem marker?_closer : marker? (closer ++ rest) = some ((.tag, closer), rest) := by
  simp [closer, marker?, tagEnd?]

theorem marker?_open_tag_closer {cs : List Char} (h : marker? ('{' :: '%' :: cs) = none) :
    marker? ('{' :: '%' :: cs ++ (closer ++ rest)) =
      some ((.tag, '{' :: '%' :: cs ++ closer), rest) := by
  have hend : tagEnd? ('{' :: (closer.tail ++ rest)) = some (closer.take 10, rest) := by
    simp [closer, tagEnd?]
  show marker? ('{' :: '%' :: cs ++ '{' :: (closer.tail ++ rest)) = _
  rw [marker?_append_of_open_tag h, hend]
  simp [closer]

theorem marker?_brace_closer : marker? ('{' :: (closer ++ rest)) =
    (outputEnd? ('}' :: rest)).map fun (inner, after) =>
      ((.output, '{' :: (closer.take 11 ++ inner ++ ['}', '}'])), after) := by
  have hplain : ∀ c ∈ (closer.take 11).tail, c ≠ '}' ∧ c ≠ '{' := by simp [closer]
  show marker? ('{' :: '{' :: ((closer.take 11).tail ++ '}' :: rest)) = _
  rw [marker?_output, outputEnd?_append_plain hplain, Option.map_map]
  rfl

/-! ## Cutting the source of a raw block -/

theorem pieces_of_not_swallowed (body : List Char) (h : ¬ Swallowed body rest) :
    ∃ ps last, flatten ps ++ last = body ∧
      pieces (body ++ (closer ++ rest)) = ps ++ (.tag, last ++ closer) :: pieces rest := by
  fun_induction pieces body with
  | case1 => exact ⟨[], [], rfl, pieces_of_marker marker?_closer⟩
  | case2 c cs m after hmarker ih =>
    obtain ⟨ps, last, hbody, hpieces⟩ := ih fun hs =>
      h ⟨(loose_of_marker hmarker).mpr hs.1, hs.2⟩
    refine ⟨m :: ps, last, ?_, ?_⟩
    · rw [flatten_cons, List.append_assoc, hbody]
      exact (marker?_eq_append hmarker).symm
    · rw [pieces_append_of_marker hmarker, hpieces]
      rfl
  | case3 c cs hmarker ih =>
    by_cases hopen : ∃ more, c :: cs = '{' :: '%' :: more
    · obtain ⟨more, heq⟩ := hopen
      rw [heq] at hmarker ⊢
      exact ⟨[], _, rfl, pieces_of_marker (marker?_open_tag_closer hmarker)⟩
    · replace hopen : ∀ more, c :: cs ≠ '{' :: '%' :: more := fun more heq => hopen ⟨more, heq⟩
      obtain ⟨hcs, hnone⟩ :
          ¬ Swallowed cs rest ∧ marker? (c :: (cs ++ (closer ++ rest))) = none := by
        -- Only a brace at the very end can join up with the closing tag.
        by_cases hbrace : c :: cs = ['{']
        · cases hbrace
          refine ⟨fun hs => not_loose_nil hs.1, ?_⟩
          rw [List.nil_append, marker?_brace_closer, Option.map_eq_none_iff,
            ← Option.not_isSome_iff_eq_none]
          exact fun ho => h ⟨loose_brace, ho⟩
        · refine ⟨fun hs => ?_, marker?_append_of_none hmarker hopen hbrace _⟩
          have hne : cs ≠ [] := by
            rintro rfl
            exact not_loose_nil hs.1
          exact h ⟨(loose_of_text hmarker hopen hne).mpr hs.1, hs.2⟩
      obtain ⟨ps, last, hbody, hpieces⟩ := ih hcs
      refine ⟨consText c ps, last, ?_, ?_⟩
      · rw [flatten_consText, List.cons_append, hbody]
      · have hkind : TokenKind.tag ≠ .text := by decide
        rw [List.cons_append, pieces_of_none hnone, hpieces, consText_append c ps hkind]

/-- The closing tag of a raw block is inside of an output marker, which starts at the last brace. -/
theorem pieces_of_swallowed (body : List Char) (hl : Loose body)
    (ho : outputEnd? ('}' :: rest) = some (inner, after)) :
    ∃ ps, flatten ps ++ ['{'] = body ∧
      pieces (body ++ (closer ++ rest)) =
        ps ++ (.output, '{' :: (closer.take 11 ++ inner ++ ['}', '}'])) :: pieces after := by
  fun_induction pieces body with
  | case1 => exact absurd hl not_loose_nil
  | case2 c cs m left hmarker ih =>
    obtain ⟨ps, hbody, hpieces⟩ := ih ((loose_of_marker hmarker).mp hl)
    refine ⟨m :: ps, ?_, ?_⟩
    · rw [flatten_cons, List.append_assoc, hbody]
      exact (marker?_eq_append hmarker).symm
    · rw [pieces_append_of_marker hmarker, hpieces]
      rfl
  | case3 c cs hmarker ih =>
    have hopen : ∀ more, c :: cs ≠ '{' :: '%' :: more := by
      rintro more heq
      rw [heq] at hmarker hl
      exact not_loose_of_open_tag hmarker hl
    by_cases hbrace : c :: cs = ['{']
    · cases hbrace
      refine ⟨[], rfl, pieces_of_marker ?_⟩
      rw [List.cons_append, List.nil_append, marker?_brace_closer, ho]
      rfl
    · have hnone := marker?_append_of_none hmarker hopen hbrace (closer.tail.tail ++ rest)
      have hne : cs ≠ [] := by
        rintro rfl
        exact hbrace (congrArg (· :: []) (Option.some.inj hl.brace))
      obtain ⟨ps, hbody, hpieces⟩ := ih ((loose_of_text hmarker hopen hne).mp hl)
      refine ⟨consText c ps, ?_, ?_⟩
      · rw [flatten_consText, List.cons_append, hbody]
      · have hkind : TokenKind.output ≠ .text := by decide
        rw [← consText_append c ps hkind, ← hpieces]
        exact pieces_of_none hnone

end

/-! ## Raw blocks in a source -/

def rawSource (body rest : String) : String :=
  "\x7b% raw %\x7d" ++ body ++ "\x7b% endraw %\x7d" ++ rest

def tokensAfter (lines : Nat) (rest : String) : List Token := (Token.all rest).map (shift lines)

/--
The raw block of a source has exactly the body that was written, and after it come the tokens of the
rest: for a scan of the tokens after the opening tag, and for a reader of the source.
-/
structure PassesThrough (body rest : String) : Prop where
  scan : ∃ ts, Token.all (rawSource body rest) = ⟨.tag, "\x7b% raw %\x7d", 1⟩ :: ts ∧
    scan? "raw" ts = some (body.toList, tokensAfter (body.toList.count '\n') rest)
  read : ∀ o, Reader.start.readAll TagTable.default o (Token.all (rawSource body rest)) =
    Reader.readAll TagTable.default o ⟨[.raw 1 "raw" body], [], false⟩
      (tokensAfter (body.toList.count '\n') rest)

section

variable {body rest : String}

theorem all_rawSource :
    Token.all (rawSource body rest) =
      ⟨.tag, "\x7b% raw %\x7d", 1⟩ ::
        number 1 (pieces (body.toList ++ (closer ++ rest.toList))) := by
  have hlist : (rawSource body rest).toList =
      "\x7b% raw %\x7d".toList ++ (body.toList ++ (closer ++ rest.toList)) := by
    simp [rawSource, closer]
  have hmarker : ∀ cs, marker? ("\x7b% raw %\x7d".toList ++ cs) =
      some ((.tag, "\x7b% raw %\x7d".toList), cs) := by
    simp [marker?, tagEnd?]
  rw [Token.all, hlist, pieces_of_marker (hmarker _), number, String.ofList_toList]
  rfl

theorem read_opening (o : Origin) (ts : List Token) :
    Reader.start.readAll TagTable.default o (⟨.tag, "\x7b% raw %\x7d", 1⟩ :: ts) =
      Reader.readAll TagTable.default o ⟨[], [⟨"raw", 1, .literal false [], []⟩], false⟩ ts := rfl

theorem scan?_body {ps qs : List Piece} {last : List Char}
    (hbody : flatten ps ++ last = body.toList) (h : ¬ "endraw".toList <:+: body.toList) :
    scan? "raw" (number 1 (ps ++ qs)) =
      (scan? "raw" (number (1 + (flatten ps).count '\n') qs)).map fun (found, after) =>
        (flatten ps ++ found, after) := by
  rw [number_append, scan?_append, text, text_number]
  intro t ht
  have htoken : t.value.toList <:+: body.toList := by
    rw [← hbody]
    exact (number_isInfix ht).trans (List.prefix_append _ _).isInfix
  apply closing?_eq_none
  intro hname
  exact h (hname.trans htoken)

theorem scan?_of_not_swallowed (h : ¬ "endraw".toList <:+: body.toList)
    (hs : ¬ Swallowed body.toList rest.toList) :
    scan? "raw" (number 1 (pieces (body.toList ++ (closer ++ rest.toList)))) =
      some (body.toList, tokensAfter (body.toList.count '\n') rest) := by
  obtain ⟨ps, last, hbody, hpieces⟩ := pieces_of_not_swallowed body.toList hs
  have hclosing : closing? "raw" (String.ofList (last ++ closer)).toList = some last := by
    have hcloser : closing? "raw" closer = some [] := by decide
    rw [String.toList_ofList, closing?_append last hcloser, List.append_nil]
  have hline : 1 + (flatten ps).count '\n' + (last ++ closer).count '\n' =
      body.toList.count '\n' + 1 := by
    have hcount : closer.count '\n' = 0 := by decide
    rw [← hbody, List.count_append, List.count_append, hcount]
    omega
  rw [hpieces, scan?_body hbody h, number, hline, number_add, scan?, hclosing]
  exact congrArg (fun found => some (found, tokensAfter (body.toList.count '\n') rest)) hbody

theorem passesThrough_of_not_swallowed (h : ¬ "endraw".toList <:+: body.toList)
    (hs : ¬ Swallowed body.toList rest.toList) : PassesThrough body rest := by
  have hscan := scan?_of_not_swallowed h hs
  refine ⟨⟨_, all_rawSource, hscan⟩, fun o => ?_⟩
  rw [all_rawSource, read_opening, Reader.readAll_literal, hscan]
  simp [Node.literal]

theorem not_passesThrough_of_swallowed (h : ¬ "endraw".toList <:+: body.toList)
    (hs : Swallowed body.toList rest.toList) : ¬ PassesThrough body rest := by
  rintro ⟨⟨ts, hts, hscan⟩, -⟩
  cases all_rawSource.symm.trans hts
  obtain ⟨hl, ho⟩ := hs
  obtain ⟨⟨inner, after⟩, ho⟩ := Option.isSome_iff_exists.mp ho
  obtain ⟨ps, hbody, hpieces⟩ := pieces_of_swallowed body.toList hl ho
  have hopen : ∀ cs, closing? "raw" (String.ofList (cs ++ ['}', '}'])).toList = none := by
    intro cs
    apply Option.eq_none_iff_forall_ne_some.mpr
    intro leading hclosing
    rw [String.toList_ofList] at hclosing
    obtain ⟨front, hfront⟩ := (closing?_eq_some_iff.mp hclosing).1
    cases (List.append_inj' hfront rfl).2
  rw [hpieces, scan?_body hbody h, number, ← List.cons_append, ← List.cons_append, scan?,
    hopen] at hscan
  obtain ⟨⟨found, left⟩, hfound, hpair⟩ := Option.map_eq_some_iff.mp hscan
  obtain ⟨⟨found', left'⟩, -, hpair'⟩ := Option.map_eq_some_iff.mp hfound
  cases hpair'
  have hlength := congrArg List.length ((Prod.mk.inj hpair).1.trans hbody.symm)
  simp at hlength

/--
A raw block passes its body through as it is written, and the rest after it, unless the closing tag
is swallowed.
-/
theorem passesThrough_iff (body rest : String) (h : ¬ "endraw".toList <:+: body.toList) :
    PassesThrough body rest ↔ ¬ Swallowed body.toList rest.toList := by
  constructor
  · intro hp hs
    exact not_passesThrough_of_swallowed h hs hp
  · intro hs
    exact passesThrough_of_not_swallowed h hs

end

/-- A brace at the end does no harm where no output marker ends in the rest. -/
theorem passesThrough_brace : ¬ "endraw".toList <:+: "x \x7b".toList ∧
    PassesThrough "x \x7b" " \x7b% y %\x7d \x7d\x7d" := by
  have hname : ¬ "endraw".toList <:+: "x \x7b".toList := by decide
  refine ⟨hname, (passesThrough_iff _ _ hname).mpr ?_⟩
  rintro ⟨-, ho⟩
  cases ho

/-- A brace that follows the closing tag is enough to swallow it. -/
theorem not_passesThrough_braces : ¬ "endraw".toList <:+: "\x7b".toList ∧
    ¬ PassesThrough "\x7b" "\x7d" := by
  have hname : ¬ "endraw".toList <:+: "\x7b".toList := by decide
  exact ⟨hname, not_passesThrough_of_swallowed hname ⟨loose_brace, rfl⟩⟩

end Stencil.Literal
