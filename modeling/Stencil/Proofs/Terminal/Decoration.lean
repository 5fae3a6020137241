import Stencil.Error.Code
import Stencil.Proofs.Clean.Text
import Stencil.Terminal
import Stencil.Text.Search

/-!
# Texts in colours

What a terminal shows of a text in colours is the text without its colour sequences. A decoration
puts such sequences around pieces of a text, and only next to characters that no error code has: so
it breaks no code in two, and a search for one finds as much as before.
-/

namespace Stencil

open Text

namespace Terminal

/-! ## Without colours -/

def Colour.all : List Colour := [.reset, .bold, .dim, .cyan, .green, .brightRed, .brightGreen]

/-- The text without the sequences of the colours, which are deleted from left to right. -/
def uncoloured (cs : List Char) : List Char :=
  match cs with
  | [] => []
  | c :: rest =>
    match Colour.all.find? fun colour => colour.sequence.toList.isPrefixOf (c :: rest) with
    | some colour => uncoloured (rest.drop (colour.sequence.length - 1))
    | none => c :: uncoloured rest
  termination_by cs.length
  decreasing_by all_goals simp only [List.length_drop, List.length_cons]; omega

theorem uncoloured_nil : uncoloured [] = [] := by rw [uncoloured]

theorem uncoloured_sequence (colour : Colour) (rest : List Char) :
    uncoloured (colour.sequence.toList ++ rest) = uncoloured rest := by
  rw [uncoloured.eq_def (colour.sequence.toList ++ rest)]
  cases colour <;> rfl

theorem uncoloured_cons {c : Char} (hc : c ≠ '\x1b') (rest : List Char) :
    uncoloured (c :: rest) = c :: uncoloured rest := by
  have hnone : Colour.all.find? (fun colour => colour.sequence.toList.isPrefixOf (c :: rest)) =
      none := by
    rw [List.find?_eq_none]
    intro colour _ hstarts
    obtain ⟨after, hafter⟩ := List.isPrefixOf_iff_prefix.mp hstarts
    cases colour <;> exact hc (List.cons.inj hafter).1.symm
  rw [uncoloured, hnone]

/-- The second text in colours is the first. -/
inductive Painted : List Char → List Char → Prop
  | nil : Painted [] []
  | cons {c : Char} {cs ds : List Char} : c ≠ '\x1b' → Painted cs ds → Painted (c :: cs) (c :: ds)
  | sequence {cs ds : List Char} (colour : Colour) : Painted cs ds →
    Painted (colour.sequence.toList ++ cs) ds

namespace Painted

variable {cs ds cs' ds' : List Char}

theorem uncoloured_eq (h : Painted cs ds) : uncoloured cs = ds := by
  induction h with
  | nil => exact uncoloured_nil
  | cons hc _ ih => rw [uncoloured_cons hc, ih]
  | sequence colour _ ih => rw [uncoloured_sequence, ih]

theorem append (h : Painted cs ds) (h' : Painted cs' ds') : Painted (cs ++ cs') (ds ++ ds') := by
  induction h with
  | nil => exact h'
  | cons hc _ ih => exact .cons hc ih
  | sequence colour _ ih =>
    rw [List.append_assoc]
    exact .sequence colour ih

theorem of_noEscape (h : NoEscape cs) : Painted cs cs := by
  induction cs with
  | nil => exact .nil
  | cons c cs ih =>
    obtain ⟨hc, hcs⟩ := noEscape_cons.mp h
    exact .cons hc (ih hcs)

theorem sequences (colours : List Colour) (h : Painted cs ds) :
    Painted ((String.join (colours.map Colour.sequence)).toList ++ cs) ds := by
  induction colours with
  | nil => exact h
  | cons colour colours ih =>
    rw [List.map_cons, String.join_cons, String.toList_append, List.append_assoc]
    exact .sequence colour ih

end Painted

/-! ## Searches for codes -/

/-- No code has this character. -/
def isBreak (c : Char) : Bool := ErrorCode.all.all fun code => !code.text.toList.contains c

section

variable {needle cs ds : List Char} {d : Char}

theorem occursIn_iff : occursIn needle cs = true ↔ needle <:+: cs := by
  induction cs with
  | nil => simp [occursIn]
  | cons c cs ih =>
    unfold occursIn
    rw [Bool.or_eq_true, ih, List.infix_cons_iff, List.isPrefixOf_iff_prefix]

theorem prefix_append_cons_iff (hd : d ∉ needle) : needle <+: cs ++ d :: ds ↔ needle <+: cs := by
  constructor
  · intro h
    rcases List.prefix_or_prefix_of_prefix h (List.prefix_append cs (d :: ds)) with h' | ⟨more, rfl⟩
    · exact h'
    · have hmore : more <+: d :: ds := (List.prefix_append_right_inj cs).mp h
      cases more with
      | nil => simp
      | cons e more =>
        obtain ⟨rfl, -⟩ := List.cons_prefix_cons.mp hmore
        simp at hd
  · exact fun h => h.trans (List.prefix_append cs (d :: ds))

theorem infix_append_cons_iff (hd : d ∉ needle) (hne : needle ≠ []) :
    needle <:+: cs ++ d :: ds ↔ needle <:+: cs ∨ needle <:+: ds := by
  induction cs with
  | nil =>
    have hprefix : ¬ needle <+: d :: ds := by
      rw [← List.nil_append (d :: ds), prefix_append_cons_iff hd, List.prefix_nil]
      exact hne
    simp [List.infix_cons_iff, hprefix, hne]
  | cons c cs ih =>
    rw [List.cons_append, List.infix_cons_iff, ih, List.infix_cons_iff, ← List.cons_append,
      prefix_append_cons_iff hd, or_assoc]

theorem not_mem_of_isBreak (hd : isBreak d) (code : ErrorCode) : d ∉ code.text.toList := by
  have hcode : code ∈ ErrorCode.all := by cases code <;> decide
  simpa using List.all_eq_true.mp hd code hcode

theorem code_ne_nil (code : ErrorCode) : code.text.toList ≠ [] := by cases code <;> decide

end

/-- What comes before such a text is searched apart from it. -/
def startsWithBreak (s : String) : Bool := s.toList.head?.any isBreak

/-- The same for what comes after. -/
def endsWithBreak (s : String) : Bool := s.toList.getLast?.any isBreak

section

variable {s t : String}

theorem endsWithBreak_append (h : endsWithBreak t) : endsWithBreak (s ++ t) := by
  obtain ⟨d, hlast, hbreak⟩ := (Option.any_eq_true isBreak _).mp h
  unfold endsWithBreak
  rw [String.toList_append, List.getLast?_append, hlast]
  exact hbreak

theorem occursIn_append_of_start (h : startsWithBreak t) (code : ErrorCode) :
    occursIn code.text.toList (s ++ t).toList =
      (occursIn code.text.toList s.toList || occursIn code.text.toList t.toList) := by
  obtain ⟨d, hhead, hbreak⟩ := (Option.any_eq_true isBreak _).mp h
  obtain ⟨more, ht⟩ : ∃ more, t.toList = d :: more := ⟨_, List.eq_cons_of_mem_head? hhead⟩
  have hout := not_mem_of_isBreak hbreak code
  have hne := code_ne_nil code
  have hmore : code.text.toList <:+: d :: more ↔ code.text.toList <:+: more := by
    simpa [hne] using @infix_append_cons_iff _ [] more _ hout hne
  rw [String.toList_append, ht, Bool.eq_iff_iff, Bool.or_eq_true, occursIn_iff, occursIn_iff,
    occursIn_iff, infix_append_cons_iff hout hne, hmore]

theorem occursIn_append_of_end (h : endsWithBreak s) (code : ErrorCode) :
    occursIn code.text.toList (s ++ t).toList =
      (occursIn code.text.toList s.toList || occursIn code.text.toList t.toList) := by
  obtain ⟨d, hlast, hbreak⟩ := (Option.any_eq_true isBreak _).mp h
  obtain ⟨front, hs⟩ := List.getLast?_eq_some_iff.mp hlast
  have hout := not_mem_of_isBreak hbreak code
  have hne := code_ne_nil code
  have hfront : code.text.toList <:+: front ++ [d] ↔ code.text.toList <:+: front := by
    simpa [hne] using @infix_append_cons_iff _ front [] _ hout hne
  rw [String.toList_append, hs, Bool.eq_iff_iff, Bool.or_eq_true, occursIn_iff, occursIn_iff,
    occursIn_iff, List.append_assoc, List.singleton_append, infix_append_cons_iff hout hne, hfront]

end

/-! ## Decorations -/

/-- The first text is the second in colours, and an error code stands in both or in neither. -/
structure Decorates (s t : String) : Prop where
  painted : Painted s.toList t.toList
  search : ∀ code : ErrorCode,
    occursIn code.text.toList s.toList = occursIn code.text.toList t.toList

namespace Decorates

variable {s t s' t' text : String}

theorem of_clean (h : Clean text) : Decorates text text := ⟨.of_noEscape h, fun _ => rfl⟩

theorem uncoloured_eq (h : Decorates s t) : String.ofList (uncoloured s.toList) = t := by
  rw [h.painted.uncoloured_eq, String.ofList_toList]

theorem painted_append (h : Decorates s t) (h' : Decorates s' t') :
    Painted (s ++ s').toList (t ++ t').toList := by
  rw [String.toList_append, String.toList_append]
  exact h.painted.append h'.painted

theorem append_of_start (h : Decorates s t) (h' : Decorates s' t') (hs : startsWithBreak s')
    (ht : startsWithBreak t') : Decorates (s ++ s') (t ++ t') where
  painted := h.painted_append h'
  search code := by
    rw [occursIn_append_of_start hs, occursIn_append_of_start ht, h.search, h'.search]

theorem append_of_end (h : Decorates s t) (h' : Decorates s' t') (hs : endsWithBreak s)
    (ht : endsWithBreak t) : Decorates (s ++ s') (t ++ t') where
  painted := h.painted_append h'
  search code := by
    rw [occursIn_append_of_end hs, occursIn_append_of_end ht, h.search, h'.search]

theorem after (h : Decorates s t) (hclean : Clean text) (hbreak : endsWithBreak text) :
    Decorates (text ++ s) (text ++ t) := (of_clean hclean).append_of_end h hbreak hbreak

theorem before (h : Decorates s t) (hclean : Clean text) (hbreak : startsWithBreak text) :
    Decorates (s ++ text) (t ++ text) := h.append_of_start (of_clean hclean) hbreak hbreak

theorem between (h : Decorates s t) (h' : Decorates s' t') (hclean : Clean text)
    (hstart : startsWithBreak text) (hend : endsWithBreak text) :
    Decorates (s ++ text ++ s') (t ++ text ++ t') :=
  (h.before hclean hstart).append_of_end h' (endsWithBreak_append hend) (endsWithBreak_append hend)

theorem lines {ss ts : List String} (h : List.Forall₂ Decorates ss ts) :
    Decorates ("\n".intercalate ss) ("\n".intercalate ts) := by
  induction h with
  | nil => exact .of_clean (by decide)
  | cons hline hmore ih =>
    cases hmore with
    | nil => simpa using hline
    | cons _ _ =>
      rw [String.intercalate_cons_cons, String.intercalate_cons_cons]
      exact hline.between ih (by decide) (by decide) (by decide)

end Decorates

/-! ## Paint -/

theorem not_occursIn_sequences (colours : List Colour) (code : ErrorCode) :
    occursIn code.text.toList (String.join (colours.map Colour.sequence)).toList = false := by
  -- Every code has this letter, and no sequence of a colour has it.
  have hcode : 'S' ∈ code.text.toList := by cases code <;> decide
  have hcolours : 'S' ∉ (String.join (colours.map Colour.sequence)).toList := by
    rw [String.toList_join, List.mem_flatMap]
    rintro ⟨_, hsequence, h⟩
    obtain ⟨colour, -, rfl⟩ := List.mem_map.mp hsequence
    revert h
    cases colour <;> decide
  rw [Bool.eq_false_iff]
  intro h
  exact hcolours ((occursIn_iff.mp h).subset hcode)

theorem endsWithBreak_sequences {colours : List Colour} (h : colours ≠ []) :
    endsWithBreak (String.join (colours.map Colour.sequence)) := by
  obtain ⟨front, colour, rfl⟩ := (List.eq_nil_or_concat colours).resolve_left h
  have hsequence : endsWithBreak colour.sequence := by cases colour <;> decide
  rw [List.concat_eq_append, List.map_append, String.join_append, List.map_singleton,
    String.join_cons, String.join_nil, String.append_empty]
  exact endsWithBreak_append hsequence

theorem Decorates.paint {text : String} (h : Clean text) (colours : List Colour) :
    Decorates (paint true colours text) text := by
  unfold Terminal.paint
  split
  · next hcolours =>
    have hne : colours ≠ [] := by simpa using hcolours
    have hreset : Painted Colour.reset.sequence.toList [] := .sequence .reset .nil
    constructor
    · rw [String.toList_append, String.toList_append, List.append_assoc]
      refine .sequences colours ?_
      simpa using (Painted.of_noEscape h).append hreset
    · intro code
      have hreset : occursIn code.text.toList Colour.reset.sequence.toList = false :=
        not_occursIn_sequences [.reset] code
      rw [occursIn_append_of_start (by decide),
        occursIn_append_of_end (endsWithBreak_sequences hne), not_occursIn_sequences, hreset,
        Bool.false_or, Bool.or_false]
  · exact .of_clean h

end Terminal

end Stencil
