import Mathlib.Data.List.Forall2
import Stencil.Proofs.Clean.Faults
import Stencil.Proofs.Template.Quotation
import Stencil.Proofs.Terminal.Decoration

/-!
# Messages in colours

What an error says is put together from pieces, some of them in colours. If none of the texts that
went into the error has an escape in it, colours do no more than decorate its message, and the
message in its compact form.
-/

namespace Stencil

open Text Terminal

/-! ## Errors without escapes -/

structure SyntaxError.Clean (e : SyntaxError) : Prop where
  fault : e.fault.Clean
  name : ∀ name ∈ e.name, Text.Clean name
  source : ∀ source ∈ e.source, Text.Clean source

structure UndefinedError.Clean (e : UndefinedError) : Prop where
  name : Text.Clean e.name
  template : ∀ name ∈ e.template, Text.Clean name
  available : ∀ name ∈ e.available, Text.Clean name

structure RuntimeError.Clean (e : RuntimeError) : Prop where
  fault : e.fault.Clean
  expression : ∀ expression ∈ e.expression, Text.Clean expression
  template : ∀ name ∈ e.template, Text.Clean name
  chain : ∀ link ∈ e.chain, Text.Clean link.1

/-- No text in the error has an escape in it. Nothing is said of what is no template error. -/
def Error.Clean : Error → Prop
  | .malformed e => e.Clean
  | .notFound e => e.Clean
  | .undefined e => e.Clean
  | .runtime e => e.Clean
  | .general message => Text.Clean message
  | .overflow _ => True
  | .file _ => True

/-! ## Pieces of messages -/

section

theorem clean_stated? {text : Option String} (h : ∀ s ∈ text, Clean s) :
    ∀ s ∈ stated? text, Clean s := fun s hs => h s (Option.filter_eq_some_iff.mp hs).1

theorem clean_placeText {name : Option String} (h : ∀ s ∈ name, Clean s) (line : Option Int) :
    Clean (placeText name line) := by
  have hplace : Clean ((stated? name).getD namelessTemplate) := by
    cases hname : stated? name with
    | none => decide
    | some s => exact clean_stated? h s hname
  unfold placeText
  dsimp only
  split
  · split
    · exact hplace
    · simp +decide [hplace]
  · exact hplace

theorem decorates_location {text : String} (h : Clean text) :
    Decorates (location true text) (location false text) := .paint h _

theorem decorates_suggestion {text : String} (h : Clean text) :
    Decorates (suggestion true text) (suggestion false text) := .paint h _

theorem header_of_code (coloured : Bool) (code : ErrorCode) (message : String) :
    header coloured (some code.text) message =
      paint coloured [.brightRed, .bold] code.text ++ ": " ++ message := by
  cases code <;> rfl

theorem decorates_header (code : ErrorCode) {message : String} (h : Clean message) :
    Decorates (header true (some code.text) message) (header false (some code.text) message) := by
  have hcode : Clean code.text := by cases code <;> decide
  have hpaint : Decorates (paint true [.brightRed, .bold] code.text)
      (paint false [.brightRed, .bold] code.text) := .paint hcode _
  rw [header_of_code, header_of_code]
  exact hpaint.between (.of_clean h) (by decide) (by decide) (by decide)

theorem forall₂_of_clean {lines : List String} (h : ∀ line ∈ lines, Clean line) :
    List.Forall₂ Decorates lines lines :=
  List.forall₂_same.mpr fun line hline => .of_clean (h line hline)

theorem decorates_hint {indent word text : String} {colours : List Colour}
    (hindent : Clean indent) (hbreak : endsWithBreak indent) (hword : Clean word)
    (htext : Clean text) :
    Decorates (indent ++ paint true colours word ++ " " ++ text)
      (indent ++ paint false colours word ++ " " ++ text) := by
  have hpaint : Decorates (paint true colours word) (paint false colours word) := .paint hword _
  exact (hpaint.after hindent hbreak).between (.of_clean htext) (by decide) (by decide) (by decide)

theorem decorates_chainText {chain : IncludeChain} (h : ∀ link ∈ chain, Clean link.1) :
    Decorates (chainText true chain) (chainText false chain) := by
  unfold chainText
  split
  · exact .of_clean (by decide)
  · have htitle : Decorates (dimmed true "Template stack:") (dimmed false "Template stack:") :=
      .paint (by decide) _
    refine .lines (.cons htitle ?_)
    rw [List.forall₂_map_left_iff, List.forall₂_map_right_iff, List.forall₂_same]
    rintro ⟨name, line⟩ hlink
    have hname : Clean name := h _ hlink
    have hplace : Clean (name ++ ":" ++ toString line) := by simp +decide [hname]
    exact (decorates_location hplace).after (by decide) (by decide)

theorem subset_of_mem_lines {cs line : List Char} (h : line ∈ lines cs) : line ⊆ cs := by
  induction cs generalizing line with
  | nil => cases h
  | cons c rest ih =>
    have hmore : ∀ line ∈ lines rest, line ⊆ c :: rest := fun line hline =>
      List.subset_cons_of_subset c (ih hline)
    cases hkind : isLineEnd c with
    | false =>
      rw [lines_cons_char hkind] at h
      rcases List.mem_cons.mp h with rfl | h
      · refine List.cons_subset_cons c ?_
        cases hfirst : (lines rest).head? with
        | none => exact List.nil_subset _
        | some first => exact ih (List.mem_of_head? hfirst)
      · exact hmore line (List.mem_of_mem_tail h)
    | true =>
      by_cases hreturn : c = '\r' ∧ rest.head? = some '\n'
      · obtain ⟨rfl, hfeed⟩ := hreturn
        obtain ⟨after, rfl⟩ : ∃ after, rest = '\n' :: after := ⟨_, List.eq_cons_of_mem_head? hfeed⟩
        rw [lines_return_feed] at h
        exact hmore line h
      · rw [lines_cons_end hkind hreturn] at h
        rcases List.mem_cons.mp h with rfl | h
        · exact List.nil_subset _
        · exact hmore line h

end

/-! ## Messages -/

theorem SyntaxError.Clean.sourceLine {e : SyntaxError} (h : e.Clean) {n : Int} {line : String}
    (hline : e.sourceLine? = some (n, line)) : Text.Clean line := by
  unfold sourceLine? at hline
  split at hline
  · next source n hsource _ =>
    split at hline
    · obtain ⟨row, hrow, heq⟩ := Option.map_eq_some_iff.mp hline
      cases heq
      rw [clean_ofList]
      exact NoEscape.of_subset (h.source source hsource)
        (subset_of_mem_lines (List.mem_of_getElem? hrow))
    · cases hline
  · cases hline

theorem SyntaxError.clean_lineNumber (n : Int) : Text.Clean (lineNumber n) := by
  have hspaces : ∀ n, NoEscape (List.replicate n ' ') := fun n => .replicate n (by decide)
  unfold lineNumber
  simp [hspaces]

theorem SyntaxError.Clean.decorates {e : SyntaxError} (h : e.Clean) :
    Decorates (e.message true) (e.message false) := by
  have hpart : Text.Clean (if e.isPartial then " (partial)" else "") := by split <;> decide
  have hplace := clean_append.mpr ⟨clean_placeText h.name e.line, hpart⟩
  have hmessage : Text.Clean ("Syntax Error: " ++ e.fault.message) := by
    simp +decide [h.fault.message]
  unfold SyntaxError.message
  dsimp only
  refine .lines (List.rel_append (List.rel_append
    (.cons (.of_clean hmessage) (.cons ?_ .nil)) ?_) ?_)
  · exact (decorates_location hplace).after (by decide) (by decide)
  · apply forall₂_of_clean
    split
    · next n line hline =>
      have hnumbered : Text.Clean (lineNumber n ++ " | " ++ line) := by
        simp +decide [clean_lineNumber n, h.sourceLine hline]
      simp +decide [hnumbered]
    · simp
  · split
    · next text hsuggestion =>
      have htext := clean_stated? h.fault.suggestion text hsuggestion
      exact .cons (decorates_hint (by decide) (by decide) (by decide) htext) .nil
    · exact .nil

theorem UndefinedError.Clean.templateName {e : UndefinedError} (h : e.Clean) :
    Text.Clean e.templateName := by
  unfold UndefinedError.templateName
  cases hname : stated? e.template with
  | none => decide
  | some name => exact clean_stated? h.template name hname

theorem UndefinedError.Clean.closest {e : UndefinedError} (h : e.Clean) {name : String}
    (hname : e.closest? = some name) : Text.Clean name :=
  h.available name (mem_of_closest? (Option.filter_eq_some_iff.mp hname).1)

theorem UndefinedError.Clean.decorates {e : UndefinedError} (h : e.Clean) :
    Decorates (e.message true) (e.message false) := by
  have hplace : Text.Clean (placeText (some e.templateName) e.line) := by
    refine clean_placeText ?_ e.line
    rintro _ ⟨⟩
    exact h.templateName
  have hstart : Text.Clean ("Undefined variable '" ++ e.name ++ "' in ") := by
    simp +decide [h.name]
  have hline := (decorates_location hplace).after hstart (endsWithBreak_append (by decide))
  unfold UndefinedError.message
  dsimp only
  split
  · next name hclosest =>
    -- The place and the name are both painted, and a quote with a dot stands in between.
    have hname := decorates_suggestion (h.closest hclosest)
    have hquoted := hname.before (show Text.Clean "'?" by decide) (by decide)
    have hword : Text.Clean ". Did you mean '" := by decide
    have hwhole := hline.between hquoted hword (by decide) (by decide)
    simpa only [String.append_assoc] using hwhole
  · simpa only [String.append_empty] using hline

theorem RuntimeError.Clean.placeLine {e : RuntimeError} (h : e.Clean) :
    Decorates (e.placeLine true) (e.placeLine false) :=
  (decorates_location (clean_placeText h.template e.line)).after (by decide) (by decide)

theorem RuntimeError.Clean.expressionLines {e : RuntimeError} (h : e.Clean) :
    ∀ line ∈ e.expressionLines, Text.Clean line := by
  unfold RuntimeError.expressionLines
  split
  · next expression hexpression =>
    have hclean := clean_stated? h.expression expression hexpression
    simp +decide [hclean]
  · simp

theorem RuntimeError.Clean.decorates {e : RuntimeError} (h : e.Clean) :
    Decorates (e.message true) (e.message false) := by
  have hmessage : Text.Clean ("Runtime Error: " ++ e.fault.message) := by
    simp +decide [h.fault.message]
  unfold RuntimeError.message
  dsimp only
  refine .lines (List.rel_append (List.rel_append (List.rel_append (List.rel_append
    (.cons (.of_clean hmessage) .nil) ?_) ?_) (forall₂_of_clean h.expressionLines)) ?_)
  · split
    · exact .cons h.placeLine .nil
    · exact .nil
  · split
    · exact .nil
    · exact .cons (.of_clean (by decide)) (.cons (decorates_chainText h.chain) .nil)
  · split
    · next text hsuggestion =>
      have htext := clean_stated? h.fault.suggestion text hsuggestion
      exact .cons (decorates_hint (by decide) (by decide) (by decide) htext) .nil
    · exact .nil

theorem RuntimeError.Clean.decorates_compact {e : RuntimeError} (h : e.Clean) :
    Decorates (e.compact true) (e.compact false) := by
  unfold RuntimeError.compact
  dsimp only
  have hheader := decorates_header e.fault.kind.code h.fault.message
  refine .lines (List.rel_append (List.rel_append
    (.cons hheader (.cons h.placeLine .nil)) (forall₂_of_clean h.expressionLines)) ?_)
  split
  · next text hsuggestion =>
    have htext := clean_stated? h.fault.suggestion text hsuggestion
    exact .cons (decorates_hint (by decide) (by decide) (by decide) htext) .nil
  · exact .nil

namespace Error

variable {e : Error}

/-- Colours decorate the message of a template error, and do not more. -/
theorem decorates (h : e.Clean) (htemplate : e.isTemplateError) :
    Decorates (e.message true) (e.message false) := by
  cases e with
  | malformed e => exact SyntaxError.Clean.decorates h
  | notFound e => exact .of_clean (LoadError.Clean.message h)
  | undefined e => exact UndefinedError.Clean.decorates h
  | runtime e => exact RuntimeError.Clean.decorates h
  | general message => exact .of_clean h
  | overflow o => cases htemplate
  | file f => cases htemplate

theorem decorates_withCode {s t : String} (h : Decorates s t) (code? : Option ErrorCode) :
    Decorates (withCode code? s) (withCode code? t) := by
  unfold withCode
  split
  · next code =>
    rw [h.search code]
    split
    · exact h
    · have hcode : Text.Clean (code.text ++ ": ") := by cases code <;> decide
      exact h.after hcode (endsWithBreak_append (by decide))
  · exact h

theorem decorates_compact (h : e.Clean) (htemplate : e.isTemplateError) :
    Decorates (e.compact true) (e.compact false) := by
  have hmessage := decorates h htemplate
  cases e with
  | runtime e => exact RuntimeError.Clean.decorates_compact h
  | malformed e => exact decorates_withCode hmessage (code? (.malformed e))
  | notFound e => exact decorates_withCode hmessage (code? (.notFound e))
  | undefined e => exact decorates_withCode hmessage (code? (.undefined e))
  | general message => exact decorates_withCode hmessage none
  | overflow o => cases htemplate
  | file f => cases htemplate

end Error

end Stencil
