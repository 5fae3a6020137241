import Mathlib.Data.List.Induction
import Stencil.Proofs.Template.Ending
import Stencil.Proofs.Token.Rules

/-!
# The quoted line of an error

Tokens are numbered by the line feeds before them, but an error quotes a line of the source by every
kind of line end. The two ways to count agree as long as no other line end stands alone; after one,
the quoted line comes from further up.
-/

namespace Stencil

namespace Text

/-! ## Line ends that are not counted -/

/-- A line end besides the line feed, except a carriage return before a line feed or the end. -/
def isStray (c : Char) (rest : List Char) : Bool :=
  isLineEnd c && c ≠ '\n' && !(c = '\r' && (rest = [] || rest.head? = some '\n'))

def hasStray : List Char → Bool
  | [] => false
  | c :: rest => isStray c rest || hasStray rest

/-- The text is empty or ends with a line feed. -/
def EndsRow (cs : List Char) : Prop := cs = [] ∨ cs.getLast? = some '\n'

/-- A row of a text, between one line feed and the next, and what stands above and below it. -/
structure IsRow (cs above row below : List Char) : Prop where
  text : cs = above ++ (row ++ below)
  starts : EndsRow above
  whole : '\n' ∉ row
  ends : below = [] ∨ below.head? = some '\n'

/-- A row without the carriage return that it may end with. -/
def dropReturn (row : List Char) : List Char :=
  if row.getLast? = some '\r' then row.dropLast else row

section

variable {c : Char} {cs rest above row below : List Char}

theorem EndsRow.tail (h : EndsRow (c :: rest)) : EndsRow rest := by
  cases rest with
  | nil => exact .inl rfl
  | cons d rest => exact .inr (by simpa [EndsRow] using h)

theorem EndsRow.ne_nil (h : EndsRow (c :: rest)) (hc : c ≠ '\n') : rest ≠ [] := by
  rintro rfl
  rcases h with h | h
  · cases h
  · exact hc (by simpa using h)

theorem exists_isRow (before after : List Char) :
    ∃ above start finish below, before = above ++ start ∧ after = finish ++ below ∧
      IsRow (before ++ after) above (start ++ finish) below ∧
      above.count '\n' = before.count '\n' := by
  have hstart : ∃ above start, before = above ++ start ∧ EndsRow above ∧ '\n' ∉ start := by
    induction before using List.reverseRecOn with
    | nil => exact ⟨[], [], rfl, .inl rfl, List.not_mem_nil⟩
    | append_singleton before c ih =>
      by_cases hc : c = '\n'
      · exact ⟨before ++ [c], [], by simp, .inr (by simp [hc]), List.not_mem_nil⟩
      · obtain ⟨above, start, rfl, habove, hstart⟩ := ih
        refine ⟨above, start ++ [c], by simp, habove, ?_⟩
        simp [hstart, Ne.symm hc]
  obtain ⟨above, start, rfl, habove, hstart⟩ := hstart
  refine ⟨above, start, after.takeWhile (· ≠ '\n'), after.dropWhile (· ≠ '\n'), rfl,
    List.takeWhile_append_dropWhile.symm, ⟨?_, habove, ?_, ?_⟩, ?_⟩
  · simp [List.takeWhile_append_dropWhile]
  · intro hfeed
    rcases List.mem_append.mp hfeed with hfeed | hfeed
    · exact hstart hfeed
    · simpa using List.mem_takeWhile_imp hfeed
  · cases hrest : after.dropWhile (· ≠ '\n') with
    | nil => exact .inl rfl
    | cons d more =>
      have hd := List.head?_dropWhile_not (· ≠ '\n') after
      rw [hrest] at hd
      exact .inr (by simpa using hd)
  · rw [List.count_append, List.count_eq_zero_of_not_mem hstart, Nat.add_zero]

/-! ## Lines -/

theorem lines_cons_feed (rest : List Char) : lines ('\n' :: rest) = [] :: lines rest := by
  simp [lines, isLineEnd]

theorem lines_return_feed (rest : List Char) :
    lines ('\r' :: '\n' :: rest) = lines ('\n' :: rest) := by
  rw [lines_cons_feed, lines]

theorem lines_cons_char (hend : isLineEnd c = false) :
    lines (c :: rest) = (c :: (lines rest).head?.getD []) :: (lines rest).tail := by
  rw [lines, if_neg (by simp [hend])]
  · cases lines rest <;> rfl
  · rintro more rfl
    contradiction

theorem lines_ne_nil (h : cs ≠ []) : lines cs ≠ [] := by
  fun_cases lines cs with
  | case1 => contradiction
  | case2 | case3 | case4 | case5 => simp

theorem isStray_iff : isStray c rest = true ↔
    isLineEnd c = true ∧ c ≠ '\n' ∧ ¬ (c = '\r' ∧ (rest = [] ∨ rest.head? = some '\n')) := by
  simp [isStray, and_assoc, imp_iff_not_or]

theorem isStray_append (h : cs ≠ []) (rest : List Char) :
    isStray c (cs ++ rest) = isStray c cs := by
  cases cs with
  | nil => contradiction
  | cons d cs => rfl

theorem lines_cons_end (hend : isLineEnd c = true) (h : ¬ (c = '\r' ∧ rest.head? = some '\n')) :
    lines (c :: rest) = [] :: lines rest := by
  rw [lines, if_pos hend]
  rintro more rfl rfl
  exact h ⟨rfl, rfl⟩

theorem lines_cons_stray (h : isStray c rest = true) : lines (c :: rest) = [] :: lines rest := by
  obtain ⟨hend, -, hreturn⟩ := isStray_iff.mp h
  exact lines_cons_end hend fun h => hreturn ⟨h.1, .inr h.2⟩

theorem head?_lines_cons_end (hend : isLineEnd c = true) :
    (lines (c :: rest)).head? = some [] := by
  by_cases hreturn : c = '\r' ∧ rest.head? = some '\n'
  · obtain ⟨rfl, hhead⟩ := hreturn
    obtain ⟨more, rfl⟩ := List.head?_eq_some_iff.mp hhead
    rw [lines_return_feed, lines_cons_feed]
    rfl
  · rw [lines_cons_end hend hreturn]
    rfl

/-- What a character does to the lines of a text that goes on after it. -/
inductive Leads : Char → List Char → Prop
  | char {c : Char} {rest : List Char} : isLineEnd c = false → Leads c rest
  | feed {rest : List Char} : Leads '\n' rest
  | return {rest : List Char} : Leads '\r' ('\n' :: rest)
  | stray {c : Char} {rest : List Char} : isStray c rest = true → Leads c rest

theorem leads (c : Char) (h : rest ≠ []) : Leads c rest := by
  cases hend : isLineEnd c with
  | false => exact .char hend
  | true =>
    by_cases hfeed : c = '\n'
    · exact hfeed ▸ .feed
    by_cases hreturn : c = '\r' ∧ rest.head? = some '\n'
    · obtain ⟨rfl, hhead⟩ := hreturn
      obtain ⟨more, rfl⟩ := List.head?_eq_some_iff.mp hhead
      exact .return
    · exact .stray (isStray_iff.mpr ⟨hend, hfeed, by simpa [h] using hreturn⟩)

theorem lines_append (h : EndsRow above) (rest : List Char) :
    lines (above ++ rest) = lines above ++ lines rest := by
  induction above with
  | nil => rfl
  | cons c above ih =>
    have ih := ih h.tail
    rw [List.cons_append]
    by_cases hfeed : c = '\n'
    · rw [hfeed, lines_cons_feed, lines_cons_feed, ih, List.cons_append]
    have habove : above ≠ [] := h.ne_nil hfeed
    cases leads c habove with
    | char hend =>
      obtain ⟨line, more, hlines⟩ := List.exists_cons_of_ne_nil (lines_ne_nil habove)
      rw [lines_cons_char hend, lines_cons_char hend, ih, hlines]
      rfl
    | feed => contradiction
    | «return» =>
      rw [List.cons_append, lines_return_feed, lines_return_feed]
      exact ih
    | stray hstray =>
      rw [lines_cons_stray hstray, lines_cons_stray (by rwa [isStray_append habove]), ih,
        List.cons_append]

theorem count_le_length_lines (h : EndsRow above) :
    above.count '\n' ≤ (lines above).length ∧
      (above.count '\n' = (lines above).length ↔ hasStray above = false) := by
  induction above with
  | nil => simp [lines, hasStray]
  | cons c above ih =>
    obtain ⟨hle, hiff⟩ := ih h.tail
    by_cases hfeed : c = '\n'
    · rw [hfeed, lines_cons_feed, List.count_cons_self, List.length_cons]
      have hstray : hasStray ('\n' :: above) = hasStray above := by simp [hasStray, isStray]
      rw [hstray, ← hiff]
      omega
    have habove : above ≠ [] := h.ne_nil hfeed
    rw [List.count_cons_of_ne hfeed]
    cases leads c habove with
    | char hend =>
      have hlength : (lines (c :: above)).length = (lines above).length := by
        obtain ⟨line, more, hlines⟩ := List.exists_cons_of_ne_nil (lines_ne_nil habove)
        rw [lines_cons_char hend, hlines]
        rfl
      have hstray : hasStray (c :: above) = hasStray above := by simp [hasStray, isStray, hend]
      rw [hlength, hstray]
      exact ⟨hle, hiff⟩
    | feed => contradiction
    | @«return» more =>
      have hstray : hasStray ('\r' :: '\n' :: more) = hasStray ('\n' :: more) := by
        simp [hasStray, isStray]
      rw [lines_return_feed, hstray]
      exact ⟨hle, hiff⟩
    | stray hstray =>
      rw [lines_cons_stray hstray, List.length_cons, hasStray, hstray, Bool.true_or]
      exact ⟨by omega, by simp; omega⟩

theorem head?_lines (hrow : '\n' ∉ row) (hbelow : below = [] ∨ below.head? = some '\n')
    (hne : row ++ below ≠ []) :
    (lines (row ++ below)).head? = some (row.takeWhile (!isLineEnd ·)) := by
  induction row with
  | nil =>
    rcases hbelow with rfl | hbelow
    · contradiction
    · obtain ⟨more, rfl⟩ := List.head?_eq_some_iff.mp hbelow
      rw [List.nil_append, lines_cons_feed]
      rfl
  | cons c row ih =>
    have hrest : '\n' ∉ row := List.not_mem_of_not_mem_cons hrow
    rw [List.cons_append]
    cases hend : isLineEnd c with
    | false =>
      rw [lines_cons_char hend, List.takeWhile_cons_of_pos (by simp [hend])]
      by_cases hmore : row ++ below = []
      · obtain ⟨rfl, rfl⟩ := List.append_eq_nil_iff.mp hmore
        rfl
      · rw [ih hrest hmore]
        rfl
    | true =>
      rw [List.takeWhile_cons_of_neg (by simp [hend])]
      exact head?_lines_cons_end hend

/-- The line is the row, if no line end in the row is stray. -/
theorem takeWhile_eq_dropReturn_iff (hrow : '\n' ∉ row) :
    row.takeWhile (!isLineEnd ·) = dropReturn row ↔ hasStray row = false := by
  induction row with
  | nil => simp [dropReturn, hasStray]
  | cons c row ih =>
    have ih := ih (List.not_mem_of_not_mem_cons hrow)
    have hc : c ≠ '\n' := fun h => hrow (h ▸ List.mem_cons_self)
    cases row with
    | nil =>
      by_cases hreturn : c = '\r'
      · subst hreturn
        decide
      · cases hend : isLineEnd c <;> simp [dropReturn, hasStray, isStray, hreturn, hend, hc]
    | cons d row =>
      have hdrop : dropReturn (c :: d :: row) = c :: dropReturn (d :: row) := by
        unfold dropReturn
        rw [List.getLast?_cons_cons]
        split <;> rfl
      cases hend : isLineEnd c with
      | false =>
        have hstray : hasStray (c :: d :: row) = hasStray (d :: row) := by
          rw [hasStray, isStray, hend, Bool.false_and, Bool.false_and, Bool.false_or]
        rw [List.takeWhile_cons_of_pos (by simp [hend]), hdrop, hstray, ← ih]
        simp
      | true =>
        have hd : d ≠ '\n' := fun h => hrow (h ▸ List.mem_cons_of_mem c List.mem_cons_self)
        have hstray : isStray c (d :: row) = true := isStray_iff.mpr ⟨hend, hc, by simp [hd]⟩
        rw [List.takeWhile_cons_of_neg (by simp [hend]), hdrop, hasStray, hstray]
        simp

end

end Text

/-! ## Errors -/

/-- The error shows this text as the line of this number. -/
structure SyntaxError.Quotes (e : SyntaxError) (n : Nat) (shown : List Char) : Prop where
  line : e.sourceLine? = some ((n : Int), String.ofList shown)
  message : ∀ coloured, ∃ hint, e.message coloured = "\n".intercalate
    (["Syntax Error: " ++ e.fault.message, "  --> " ++ Terminal.location coloured
        (placeText e.name e.line ++ (if e.isPartial then " (partial)" else ""))] ++
      ["   |", lineNumber n ++ " | " ++ String.ofList shown, "   |"] ++ hint)

section

variable {e : SyntaxError} {source : String} {n : Nat} {above row below : List Char}

theorem SyntaxError.quotes_of_lines (hsource : e.source = some source)
    (hline : e.line = some ((n + 1 : Nat) : Int)) {shown : List Char}
    (hshown : (Text.lines source.toList)[n]? = some shown) : e.Quotes (n + 1) shown := by
  have hquoted : e.sourceLine? = some (((n + 1 : Nat) : Int), String.ofList shown) := by
    unfold SyntaxError.sourceLine?
    simp only [hsource, hline]
    rw [if_pos (by omega), Int.toNat_natCast, Nat.add_sub_cancel, hshown]
    rfl
  refine ⟨hquoted, fun coloured => ?_⟩
  unfold SyntaxError.message
  rw [hquoted]
  exact ⟨_, rfl⟩

theorem Text.IsRow.exists_line {cs : List Char} (h : Text.IsRow cs above row below)
    (hne : row ++ below ≠ []) :
    ∃ shown, (Text.lines cs)[above.count '\n']? = some shown ∧
      (Text.hasStray above = false → shown = row.takeWhile (!Text.isLineEnd ·)) ∧
      (Text.hasStray above = true → shown ∈ Text.lines above) := by
  obtain ⟨hle, hiff⟩ := Text.count_le_length_lines h.starts
  rw [h.text, Text.lines_append h.starts]
  cases hstray : Text.hasStray above with
  | false =>
    have hcount := hiff.mpr hstray
    refine ⟨_, ?_, fun _ => rfl, nofun⟩
    rw [List.getElem?_append_right (Nat.le_of_eq hcount.symm), hcount, Nat.sub_self,
      ← List.head?_eq_getElem?]
    exact Text.head?_lines h.whole h.ends hne
  | true =>
    have hlt : above.count '\n' < (Text.lines above).length := by
      refine Nat.lt_of_le_of_ne hle fun hcount => ?_
      rw [hiff.mp hcount] at hstray
      cases hstray
    refine ⟨(Text.lines above)[above.count '\n'], ?_, nofun, fun _ => List.getElem_mem hlt⟩
    rw [List.getElem?_append_left hlt, List.getElem?_eq_getElem hlt]

/-- The token starts in this row, whose number it has. -/
structure Token.StartsIn (source : String) (t : Token) (above row below : List Char) : Prop where
  isRow : Text.IsRow source.toList above row below
  starts : ∃ before after start, Token.all source = before ++ t :: after ∧
    Literal.text before = above ++ start ∧ start <+: row
  line : t.line = above.count '\n' + 1

theorem Token.exists_startsIn {t : Token} (h : t ∈ Token.all source) :
    ∃ above row below, t.StartsIn source above row below ∧ row ++ below ≠ [] := by
  have hcuts : Token.Cuts 1 source.toList (Token.all source) :=
    Token.cuts_number_pieces 1 source.toList
  obtain ⟨before, after, htokens⟩ := List.append_of_mem h
  have htext : source.toList = Literal.text before ++ Literal.text (t :: after) := by
    rw [← hcuts.text, htokens]
    exact List.flatMap_append
  obtain ⟨above, start, finish, below, hbefore, hafter, hrow, hcount⟩ :=
    Text.exists_isRow (Literal.text before) (Literal.text (t :: after))
  rw [← htext] at hrow
  refine ⟨above, start ++ finish, below, ⟨hrow, ⟨before, after, start, htokens, hbefore,
    List.prefix_append start finish⟩, ?_⟩, ?_⟩
  · rw [hcuts.lines before t after htokens, hcount, Nat.add_comm]
  · -- The token itself stands there.
    have hvalue : t.value.toList ≠ [] := by simpa using hcuts.nonempty t h
    rw [List.append_assoc, ← hafter, Token.text_cons]
    simp [hvalue]

/--
An error quotes the row in which the token starts that it is placed at, without a carriage return at
its end, as long as there is no other line end than the line feed above the row and in it.
-/
theorem Template.error_quotes_row {tags : TagTable} {name file : Option String} {isPartial : Bool}
    (h : Template.parse tags source name file isPartial = .error (.malformed e)) :
    ∃ (t : Token) (fault : SyntaxFault) (above row below shown : List Char),
      t.StartsIn source above row below ∧
      e = Origin.error ⟨name, source, isPartial⟩ t.line fault ∧ e.Quotes t.line shown ∧
      (Text.hasStray above = false → shown = row.takeWhile (!Text.isLineEnd ·) ∧
        (shown = Text.dropReturn row ↔ Text.hasStray row = false)) ∧
      (Text.hasStray above = true → shown ∈ Text.lines above) := by
  have hplaced : ∃ t ∈ Token.all source, ∃ fault,
      e = Origin.error ⟨name, source, isPartial⟩ t.line fault := by
    obtain hnodes | ⟨nodes, -, hok⟩ := except_bind_eq_error.mp h
    · have hends := Node.ends_ofTokens tags ⟨name, source, isPartial⟩ (Token.all source)
      rw [hnodes] at hends
      cases hends with
      | @unterminated _ inner _ t _ _ _ ht => exact ⟨t, ht, _, rfl⟩
      | @stopped before after t u _ fault hcut _ _ hu =>
        refine ⟨u, ?_, fault, rfl⟩
        rw [hcut]
        exact List.Sublist.subset (by simp) hu
    · cases hok
  obtain ⟨t, ht, fault, rfl⟩ := hplaced
  obtain ⟨above, row, below, hstarts, hne⟩ := Token.exists_startsIn ht
  obtain ⟨shown, hshown, hfree, hstray⟩ := hstarts.isRow.exists_line hne
  refine ⟨t, fault, above, row, below, shown, hstarts, rfl, ?_, fun habove => ?_, hstray⟩
  · rw [hstarts.line]
    exact SyntaxError.quotes_of_lines rfl rfl hshown
  · rw [hfree habove]
    exact ⟨rfl, Text.takeWhile_eq_dropReturn_iff hstarts.isRow.whole⟩

end

/-- An unknown tag on the second row, and what stands in the first one. -/
def unknownTagPage (first : String) : Origin :=
  ⟨some "page", first ++ "\n\x7b% x %\x7d", false⟩

theorem Template.unknownTag_quotes_row :
    Template.parse .default (unknownTagPage "a\r").source (some "page") none false =
      .error (.malformed ((unknownTagPage "a\r").error 2 (.unknownTag "x" none))) ∧
    ((unknownTagPage "a\r").error 2 (.unknownTag "x" none)).Quotes 2 "\x7b% x %\x7d".toList := by
  have hparse : Template.parse .default (unknownTagPage "a\r").source (some "page") none false =
      .error (.malformed ((unknownTagPage "a\r").error 2 (.unknownTag "x" none))) := by
    with_unfolding_all rfl
  obtain ⟨t, fault, above, row, below, shown, -, herror, hquotes, -⟩ :=
    Template.error_quotes_row hparse
  have hline : t.line = 2 := by
    have hlines := congrArg SyntaxError.line herror
    simp only [Origin.error, Option.some.injEq] at hlines
    omega
  rw [hline] at hquotes
  have hsecond : ((unknownTagPage "a\r").error 2 (.unknownTag "x" none)).sourceLine? =
      some (2, "\x7b% x %\x7d") := by with_unfolding_all rfl
  have hshown : "\x7b% x %\x7d" = String.ofList shown := by
    simpa using hsecond.symm.trans hquotes.line
  rw [hshown, String.toList_ofList]
  exact ⟨hparse, hquotes⟩

/-- A form feed above the row: the error shows what stands after it instead. -/
theorem Template.form_feed_moves_quoted_line :
    ∃ e t, Template.parse .default (unknownTagPage "a\x0cb").source (some "page") none false =
        .error (.malformed e) ∧
      e.line = some 2 ∧
      Token.StartsIn (unknownTagPage "a\x0cb").source t "a\x0cb\n".toList
        "\x7b% x %\x7d".toList [] ∧
      e.Quotes t.line ['b'] := by
  have htokens : Token.all (unknownTagPage "a\x0cb").source =
      [⟨.text, "a\x0cb\n", 1⟩, ⟨.tag, "\x7b% x %\x7d", 2⟩] := by with_unfolding_all rfl
  refine ⟨(unknownTagPage "a\x0cb").error 2 (.unknownTag "x" none), ⟨.tag, "\x7b% x %\x7d", 2⟩,
    ?_, rfl, ?_, ?_⟩
  · with_unfolding_all rfl
  · refine ⟨⟨rfl, .inr rfl, by decide, .inl rfl⟩, ⟨[_], [], [], htokens, rfl, List.nil_prefix⟩,
      rfl⟩
  · exact SyntaxError.quotes_of_lines rfl rfl rfl

end Stencil
