import Stencil.Markup.Directive
import Stencil.Proofs.Expr.Visit
import Stencil.Proofs.Markup.Spelling

/-!
# Writing inclusions

What a partial is included with can be written down piece by piece, and is read back as it was
written: no key or value starts within another one, whatever stands in quotes, and the words that
announce a value to bind may still be keys.
-/

namespace Stencil.Markup

open Text

/-! ## Attributes -/

/-- What stands before an attribute. -/
inductive Separator
  | comma
  | space

def Separator.chars : Separator → List Char
  | .comma => [',', ' ']
  | .space => [' ']

/-- What stands between the key of an attribute and its value. -/
inductive Assigner
  | colon
  | equal

def Assigner.chars : Assigner → List Char
  | .colon => [':', ' ']
  | .equal => ['=']

/-- A word character, and then any of those and dashes. -/
def IsKey (key : List Char) : Prop :=
  ∃ c more, key = c :: more ∧ isWordChar c = true ∧ ∀ d ∈ more, isNameChar d = true

structure SpelledAttribute where
  separator : Separator
  key : List Char
  isKey : IsKey key
  assigner : Assigner
  value : Spelling

namespace SpelledAttribute

/-- All of the attribute but what stands before it. -/
def body (a : SpelledAttribute) : List Char := a.key ++ a.assigner.chars ++ a.value.text

def chars (a : SpelledAttribute) : List Char := a.separator.chars ++ a.body

end SpelledAttribute

section

variable {c mark : Char} {key more rest : List Char}

theorem IsKey.forall_isNameChar (h : IsKey key) : ∀ d ∈ key, isNameChar d = true := by
  obtain ⟨c, more, rfl, hc, hmore⟩ := h
  exact List.forall_mem_cons.mpr ⟨by simp [isNameChar, hc], hmore⟩

theorem isKey_of_all (hc : isWordChar c = true) (hmore : more.all isNameChar = true) :
    IsKey (c :: more) := ⟨c, more, rfl, hc, List.all_eq_true.mp hmore⟩

theorem Assigner.exists_chars (a : Assigner) : ∃ mark more, a.chars = mark :: more ∧
    (mark = ':' ∨ mark = '=') ∧ (more = [] ∨ more = [' ']) := by
  cases a with
  | colon => exact ⟨':', [' '], rfl, .inl rfl, .inr rfl⟩
  | equal => exact ⟨'=', [], rfl, .inr rfl, .inl rfl⟩

theorem halts_of_assigner (hmark : mark = ':' ∨ mark = '=') (more : List Char) :
    Halts isNameChar (mark :: more) := by
  rintro c ⟨⟩
  rcases hmark with rfl | rfl <;> decide +kernel

theorem isBlank_of_assigner (hmark : mark = ':' ∨ mark = '=') : isBlank mark = false := by
  rcases hmark with rfl | rfl <;> rfl

theorem attribute?_of_isKey (hkey : IsKey key) (hmark : mark = ':' ∨ mark = '=')
    (after : List Char) :
    attribute? (key ++ mark :: after) =
      (fragment? (trimStart after)).map fun found => ((key, found.1), found.2) := by
  have hhalts := halts_of_assigner hmark after
  have hdrop := dropWhile_append_of_halts hkey.forall_isNameChar hhalts
  have htake := takeWhile_append_of_halts hkey.forall_isNameChar hhalts
  obtain ⟨c, more, rfl, hc, -⟩ := hkey
  rw [List.cons_append] at hdrop htake ⊢
  rw [attribute?, if_pos hc, hdrop, htake, trimStart_cons (isBlank_of_assigner hmark)]
  exact if_pos hmark

theorem SpelledAttribute.attribute?_append (a : SpelledAttribute) (hrest : EndsFragment rest) :
    attribute? (a.body ++ rest) = some ((a.key, a.value.text), rest) := by
  obtain ⟨mark, more, hchars, hmark, hmore⟩ := a.assigner.exists_chars
  have hbody : a.body ++ rest = a.key ++ mark :: (more ++ (a.value.text ++ rest)) := by
    simp [body, hchars]
  have hblanks : AllBlank more := by
    rcases hmore with rfl | rfl
    · exact nofun
    · exact List.forall_mem_singleton.mpr rfl
  rw [hbody, attribute?_of_isKey a.isKey hmark, Text.trimStart_append hblanks,
    a.value.trimStart_append, a.value.fragment?_append hrest]
  rfl

/-! ## Lists of attributes -/

theorem attributes_of_none (h : attribute? (c :: rest) = none) :
    attributes (c :: rest) = attributes rest := by
  rw [attributes]
  split
  · next heq => cases h.symm.trans heq
  · rfl

theorem attributes_of_some {found : List Char × List Char} {cs left : List Char}
    (h : attribute? cs = some (found, left)) : attributes cs = found :: attributes left := by
  cases cs with
  | nil => cases h
  | cons c cs =>
    rw [attributes]
    split
    · next heq =>
      cases h.symm.trans heq
      rfl
    · next heq => cases h.symm.trans heq

theorem attributes_skip (hc : isWordChar c = false) (rest : List Char) :
    attributes (c :: rest) = attributes rest := by
  refine attributes_of_none ?_
  rw [attribute?, hc]
  rfl

theorem Separator.attributes_append (s : Separator) (rest : List Char) :
    attributes (s.chars ++ rest) = attributes rest := by
  have hspace : attributes (' ' :: rest) = attributes rest :=
    attributes_skip (by decide +kernel) rest
  cases s with
  | comma =>
    rw [← hspace]
    exact attributes_skip (by decide +kernel) (' ' :: rest)
  | space => exact hspace

theorem Separator.endsFragment (s : Separator) (rest : List Char) :
    EndsFragment (s.chars ++ rest) := by
  cases s <;> (rintro c ⟨⟩; exact ⟨rfl, rfl⟩)

theorem endsFragment_attributes (as : List SpelledAttribute) :
    EndsFragment (as.flatMap SpelledAttribute.chars) := by
  cases as with
  | nil => exact nofun
  | cons a as =>
    rw [List.flatMap_cons, SpelledAttribute.chars, List.append_assoc]
    exact a.separator.endsFragment _

theorem attributes_flatMap_chars (as : List SpelledAttribute) :
    attributes (as.flatMap SpelledAttribute.chars) = as.map fun a => (a.key, a.value.text) := by
  induction as with
  | nil => rw [List.flatMap_nil, attributes, List.map_nil]
  | cons a as ih =>
    rw [List.flatMap_cons, SpelledAttribute.chars, List.append_assoc,
      Separator.attributes_append,
      attributes_of_some (a.attribute?_append (endsFragment_attributes as)), ih, List.map_cons]

/-! ## What is bound -/

/-- How the value to bind is announced. -/
inductive BindingWord
  | once
  | each

def BindingWord.text : BindingWord → String
  | .once => "with"
  | .each => "for"

theorem afterBlanks?_of_not_isBlank (hc : isBlank c = false) (cs : List Char) :
    afterBlanks? (c :: cs) = none := by
  rw [afterBlanks?, hc]
  rfl

theorem afterBlanks?_space (cs : List Char) : afterBlanks? (' ' :: cs) = some (trimStart cs) := rfl

theorem afterWord?_append (word : String) (cs : List Char) :
    afterWord? word (word.toList ++ cs) = some cs := by
  have hdrop : (word.toList ++ cs).drop word.length = cs := by
    rw [← String.length_toList, List.drop_left]
  rw [afterWord?, if_pos (List.isPrefixOf_iff_prefix.mpr (List.prefix_append _ cs)), hdrop]

theorem boundFragment?_append (w : BindingWord) (v : Spelling) (hrest : EndsFragment rest) :
    boundFragment? (' ' :: (w.text.toList ++ ' ' :: (v.text ++ rest))) = some (v.text, rest) := by
  have hafter : ((afterWord? "with" (w.text.toList ++ ' ' :: (v.text ++ rest))).orElse fun _ =>
      afterWord? "for" (w.text.toList ++ ' ' :: (v.text ++ rest))) =
        some (' ' :: (v.text ++ rest)) := by
    cases w with
    | once =>
      rw [BindingWord.text, afterWord?_append]
      rfl
    | each => exact afterWord?_append "for" _
  have hword : trimStart (w.text.toList ++ ' ' :: (v.text ++ rest)) =
      w.text.toList ++ ' ' :: (v.text ++ rest) := by
    cases w <;> exact trimStart_cons rfl _
  rw [boundFragment?, afterBlanks?_space, hword]
  simp only [Option.bind_eq_bind, Option.bind_some, hafter, afterBlanks?_space, v.trimStart_append,
    v.fragment?_append hrest]

theorem afterBlanks?_of_afterWord? {word : String} (hword : ∀ d ∈ word.toList, isNameChar d = true)
    (hkey : ∀ d ∈ key, isNameChar d = true) (hmark : mark = ':' ∨ mark = '=')
    (h : afterWord? word (key ++ mark :: more) = some rest) : afterBlanks? rest = none := by
  unfold afterWord? at h
  split at h
  · next hprefix =>
    obtain ⟨after, hafter⟩ := List.isPrefixOf_iff_prefix.mp hprefix
    rw [← hafter, ← String.length_toList, List.drop_left] at h
    obtain rfl := Option.some.inj h
    rcases List.append_eq_append_iff.mp hafter with ⟨left, rfl, rfl⟩ | ⟨past, hpast, hmore⟩
    · cases left with
      | nil => exact afterBlanks?_of_not_isBlank (isBlank_of_assigner hmark) more
      | cons d left =>
        have hd := hkey d (by simp)
        exact afterBlanks?_of_not_isBlank (not_isBlank_of_isNameChar hd) _
    · cases past with
      | nil =>
        obtain rfl : after = mark :: more := hmore.symm
        exact afterBlanks?_of_not_isBlank (isBlank_of_assigner hmark) more
      | cons d past =>
        obtain ⟨rfl, -⟩ := List.cons.inj hmore
        have hname := hword mark (by simp [hpast])
        cases hname.symm.trans (halts_of_assigner hmark more mark rfl)
  · cases h

theorem boundFragment?_of_key (hkey : IsKey key) (hmark : mark = ':' ∨ mark = '=') :
    boundFragment? (' ' :: (key ++ mark :: more)) = none := by
  have hstart : trimStart (key ++ mark :: more) = key ++ mark :: more := by
    obtain ⟨c, stem, rfl, hc, -⟩ := hkey
    exact trimStart_cons (not_isBlank_of_isNameChar (by simp [isNameChar, hc])) _
  have hnone {word : String} (hword : ∀ d ∈ word.toList, isNameChar d = true) {rest : List Char}
      (h : afterWord? word (key ++ mark :: more) = some rest) : afterBlanks? rest = none :=
    afterBlanks?_of_afterWord? hword hkey.forall_isNameChar hmark h
  rw [boundFragment?, afterBlanks?_space, hstart]
  cases hwith : afterWord? "with" (key ++ mark :: more) with
  | some rest => simp [hwith, hnone (List.all_eq_true.mp (by decide +kernel)) hwith]
  | none =>
    cases hfor : afterWord? "for" (key ++ mark :: more) with
    | some rest => simp [hwith, hfor, hnone (List.all_eq_true.mp (by decide +kernel)) hfor]
    | none => simp [hwith, hfor]

theorem boundFragment?_attributes (as : List SpelledAttribute) :
    boundFragment? (as.flatMap SpelledAttribute.chars) = none := by
  cases as with
  | nil => rfl
  | cons a as =>
    obtain ⟨mark, more, hchars, hmark, -⟩ := a.assigner.exists_chars
    rw [List.flatMap_cons]
    generalize as.flatMap SpelledAttribute.chars = later
    cases hseparator : a.separator with
    | comma =>
      simp only [SpelledAttribute.chars, hseparator, Separator.chars, List.cons_append]
      rw [boundFragment?, afterBlanks?_of_not_isBlank rfl]
      rfl
    | space =>
      have hkey : a.chars ++ later =
          ' ' :: (a.key ++ mark :: (more ++ (a.value.text ++ later))) := by
        simp [SpelledAttribute.chars, SpelledAttribute.body, hseparator, Separator.chars, hchars]
      rw [hkey]
      exact boundFragment?_of_key a.isKey hmark

end

/-! ## Inclusions -/

/-- The name of a partial, what to bind, and further variables, as they are written. -/
structure SpelledInclusion where
  name : Spelling
  bound : Option (BindingWord × Spelling)
  attributes : List SpelledAttribute

namespace SpelledInclusion

def boundChars (d : SpelledInclusion) : List Char :=
  match d.bound with
  | none => []
  | some (word, value) => ' ' :: (word.text.toList ++ ' ' :: value.text)

def chars (d : SpelledInclusion) : List Char :=
  d.name.text ++ (d.boundChars ++ d.attributes.flatMap SpelledAttribute.chars)

theorem fragment?_chars (d : SpelledInclusion) :
    fragment? d.chars =
      some (d.name.text, d.boundChars ++ d.attributes.flatMap SpelledAttribute.chars) := by
  refine d.name.fragment?_append ?_
  unfold boundChars
  split
  · exact endsFragment_attributes d.attributes
  · rintro c ⟨⟩
    exact ⟨rfl, rfl⟩

theorem mapM_parse (as : List SpelledAttribute) :
    ((as.map fun a => (a.key, a.value.text)).mapM fun (key, value) => do
      let e ← Expr.parse value
      return (String.ofList key, e)) =
        .ok (as.map fun a => (String.ofList a.key, a.value.expr)) := by
  induction as with
  | nil => rfl
  | cons a as ih =>
    rw [List.map_cons, List.mapM_cons, ih]
    dsimp only
    rw [a.value.reads]
    rfl

theorem boundFragment?_chars (d : SpelledInclusion) :
    boundFragment? (d.boundChars ++ d.attributes.flatMap SpelledAttribute.chars) =
      d.bound.map fun bound =>
        (bound.2.text, d.attributes.flatMap SpelledAttribute.chars) := by
  unfold boundChars
  cases d.bound with
  | none => exact boundFragment?_attributes d.attributes
  | some bound =>
    obtain ⟨word, value⟩ := bound
    have hvalue := boundFragment?_append word value (endsFragment_attributes d.attributes)
    simpa using hvalue

theorem parse_eq (tag : String) (d : SpelledInclusion) :
    Inclusion.parse tag d.chars = .ok ⟨d.name.expr, d.bound.map fun bound => bound.2.expr,
      d.attributes.map fun a => (String.ofList a.key, a.value.expr), String.ofList d.chars⟩ := by
  have hname := d.fragment?_chars
  have hbound := d.boundFragment?_chars
  have hattributes := attributes_flatMap_chars d.attributes
  obtain ⟨name, bound, as⟩ := d
  unfold Inclusion.parse
  rw [hname]
  dsimp only at hbound hattributes ⊢
  rw [hbound]
  cases bound with
  | none =>
    dsimp only [Option.map_none, boundChars, List.nil_append]
    rw [hattributes, mapM_parse, name.reads]
    rfl
  | some bound =>
    dsimp only [Option.map_some, parseOptional]
    rw [hattributes, mapM_parse, name.reads, bound.2.reads]
    rfl

/--
An inclusion that is written down is read back as it is. And whatever expression can be read at all
can stand in one: without its blanks, the text that it was read from spells it.
-/
theorem parse_chars (tag : String) (d : SpelledInclusion) :
    (Inclusion.parse tag d.chars = .ok ⟨d.name.expr, d.bound.map fun bound => bound.2.expr,
      d.attributes.map fun a => (String.ofList a.key, a.value.expr), String.ofList d.chars⟩) ∧
    ∀ markup e, Expr.parse markup = .ok e → ∃ w : Spelling,
      w.expr = e.inMarkup (String.ofList w.text) ∧
        (AllBlank markup ∨ w.text = withoutBlanks markup) :=
  ⟨parse_eq tag d, fun _ _ => exists_spelling⟩

end SpelledInclusion

/-- An inclusion with the keys `with`, `for` and `in`, the last one twice. -/
def keywordKeys : SpelledInclusion where
  name := .ofPlain (.literal (.text "card")) (.inl (by decide))
  bound := some (.each, .ofPlain (.lookup (.name "rows") [] "")
    ⟨⟨'r', ['o', 'w', 's'], by decide, List.all_eq_true.mp (by decide +kernel), .inl rfl⟩,
      fun _ => rfl, trivial⟩)
  attributes := [
    ⟨.comma, ['w', 'i', 't', 'h'], isKey_of_all (by decide +kernel) (by decide +kernel), .colon,
      .ofPlain (.literal (.text "a, in: b=c")) (.inl (by decide))⟩,
    ⟨.space, ['f', 'o', 'r'], isKey_of_all (by decide +kernel) (by decide +kernel), .equal,
      .ofPlain (.literal (.int 1)) (Expr.isPlain_int (by decide))⟩,
    ⟨.comma, ['i', 'n'], isKey_of_all (by decide +kernel) (by decide +kernel), .colon,
      .ofPlain (.literal (.int 2)) (Expr.isPlain_int (by decide))⟩,
    ⟨.space, ['i', 'n'], isKey_of_all (by decide +kernel) (by decide +kernel), .equal,
      .ofPlain (.literal (.int 3)) (Expr.isPlain_int (by decide))⟩]

theorem chars_keywordKeys : keywordKeys.chars =
    "\"card\" for rows, with: \"a, in: b=c\" for=1, in: 2 in=3".toList := by
  with_unfolding_all rfl

theorem SpelledInclusion.keywordKeys_is_read_back :
    (Inclusion.parse "include"
      "\"card\" for rows, with: \"a, in: b=c\" for=1, in: 2 in=3".toList = .ok
        ⟨.literal (.text "card"), some (.lookup (.name "rows") [] "rows"),
          [("with", .literal (.text "a, in: b=c")), ("for", .literal (.int 1)),
            ("in", .literal (.int 2)), ("in", .literal (.int 3))],
          "\"card\" for rows, with: \"a, in: b=c\" for=1, in: 2 in=3"⟩) ∧
    ∃ w : Spelling, w.text = "xs[0]".toList ∧
      w.expr = .lookup (.name "xs") [.computed (.literal (.int 0))] "xs[0]" := by
  have hparse : Expr.parse "xs [ 0 ]".toList =
      .ok (.lookup (.name "xs") [.computed (.literal (.int 0))] "xs [ 0 ]") := by
    with_unfolding_all rfl
  have hblanks : withoutBlanks "xs [ 0 ]".toList = "xs[0]".toList := by
    with_unfolding_all rfl
  obtain ⟨hread, hspell⟩ := parse_chars "include" keywordKeys
  rw [chars_keywordKeys] at hread
  refine ⟨hread.trans ?_, ?_⟩
  · with_unfolding_all rfl
  · obtain ⟨w, hexpr, hblank | htext⟩ := hspell _ _ hparse
    · exact absurd (hblank 'x' (by decide)) (by decide)
    · rw [htext, hblanks] at hexpr
      refine ⟨w, htext.trans hblanks, hexpr.trans ?_⟩
      with_unfolding_all rfl

end Stencil.Markup
