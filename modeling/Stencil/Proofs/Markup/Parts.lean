import Mathlib.Data.List.Basic
import Stencil.Node
import Stencil.Proofs.Token.Pieces

/-!
# Parts of markup

Whatever is read from a markup is a part of it: the words of a condition, the fragments of a
directive with the values of its attributes, the name of a tag, and the markup of a token.
-/

namespace Stencil

open Text

section

variable {cs : List Char}

theorem Text.trimStart_isSuffix (cs : List Char) : trimStart cs <:+ cs :=
  List.dropWhile_suffix isBlank

theorem Text.trimEnd_isPrefix (cs : List Char) : trimEnd cs <+: cs :=
  List.reverse_suffix.mp (by
    rw [trimEnd, List.reverse_reverse]
    exact List.dropWhile_suffix isBlank)

theorem Text.trim_isInfix (cs : List Char) : trim cs <:+: cs :=
  (trimEnd_isPrefix _).isInfix.trans (trimStart_isSuffix cs).isInfix

end

namespace Markup

section

variable {cs fragment rest word : List Char}

theorem append_of_fragment? (h : fragment? cs = some (fragment, rest)) : fragment ++ rest = cs := by
  unfold fragment? at h
  split at h
  · next found hquoted =>
    cases h
    exact quoted?_append hquoted
  · split at h
    · cases h
    · have hrun := takeRun_append isFragmentPart cs
      rwa [Option.some.inj h] at hrun

theorem isInfix_of_mem_words (h : word ∈ words cs) : word <:+: cs := by
  fun_induction words cs with
  | case1 => cases h
  | case2 c rest _ ih => exact (ih h).trans (List.suffix_cons c rest).isInfix
  | case3 c rest _ ih =>
    have hrun := takeRun_append isWordPart (c :: rest)
    obtain rfl | h := List.mem_cons.mp h
    · exact ⟨[], _, hrun⟩
    · exact (ih h).trans ⟨_, [], by rw [List.append_nil, hrun]⟩

/-! ## Attributes -/

theorem parts_of_attribute? {found : List Char × List Char}
    (h : attribute? cs = some (found, rest)) :
    found.1 <:+: cs ∧ found.2 <:+: cs ∧ rest <:+ cs := by
  unfold attribute? at h
  split at h
  · cases h
  · next c more =>
    split at h
    · split at h
      · cases h
      · next mark after hafter =>
        split at h
        · obtain ⟨⟨value, left⟩, hvalue, heq⟩ := Option.map_eq_some_iff.mp h
          cases heq
          have hafter : after <:+ c :: more := by
            have hname := List.dropWhile_suffix (l := c :: more) isNameChar
            have hmark := (List.suffix_cons mark after).trans (hafter ▸ trimStart_isSuffix _)
            exact hmark.trans hname
          have hrest := (trimStart_isSuffix after).trans hafter
          have hcut := append_of_fragment? hvalue
          refine ⟨(List.takeWhile_prefix isNameChar).isInfix, ?_, ?_⟩
          · exact List.IsInfix.trans ⟨[], rest, hcut⟩ hrest.isInfix
          · exact List.IsSuffix.trans ⟨value, hcut⟩ hrest
        · cases h
    · cases h

theorem parts_of_mem_attributes {found : List Char × List Char} (h : found ∈ attributes cs) :
    found.1 <:+: cs ∧ found.2 <:+: cs := by
  fun_induction attributes cs with
  | case1 => cases h
  | case2 c rest first left hfirst ih =>
    obtain ⟨hkey, hvalue, hleft⟩ := parts_of_attribute? hfirst
    obtain rfl | h := List.mem_cons.mp h
    · exact ⟨hkey, hvalue⟩
    · obtain ⟨hkey, hvalue⟩ := ih h
      exact ⟨hkey.trans hleft.isInfix, hvalue.trans hleft.isInfix⟩
  | case3 c rest _ ih =>
    obtain ⟨hkey, hvalue⟩ := ih h
    have hrest := (List.suffix_cons c rest).isInfix
    exact ⟨hkey.trans hrest, hvalue.trans hrest⟩

theorem mem_of_lastValue {key : String} {found : List (List Char × List Char)} {value : List Char}
    (h : lastValue key found = some value) : (key.toList, value) ∈ found := by
  obtain ⟨before, after, hfound, -⟩ := List.lookup_eq_some_iff.mp h
  exact List.mem_reverse.mp (by rw [hfound]; simp)

/-! ## Directives -/

theorem isSuffix_of_afterBlanks? (h : afterBlanks? cs = some rest) : rest <:+ cs := by
  unfold afterBlanks? at h
  split at h
  · cases h
  · split at h
    · cases h
      exact trimStart_isSuffix _
    · cases h

theorem isSuffix_of_afterWord? {key : String} (h : afterWord? key cs = some rest) :
    rest <:+ cs := by
  unfold afterWord? at h
  split at h
  · cases h
    exact List.drop_suffix _ cs
  · cases h

theorem isSuffix_of_afterReversed? (h : afterReversed? cs = some rest) : rest <:+ cs := by
  obtain ⟨rest₁, h₁, h⟩ := Option.bind_eq_some_iff.mp h
  obtain ⟨rest₂, h₂, h⟩ := Option.bind_eq_some_iff.mp h
  split at h
  · cases h
  · cases h
    exact (isSuffix_of_afterWord? h₂).trans (isSuffix_of_afterBlanks? h₁)

theorem parts_of_splitAssign? {target source : List Char}
    (h : splitAssign? cs = some (target, source)) : target <:+: cs ∧ source <:+: cs := by
  unfold splitAssign? at h
  dsimp only at h
  split at h
  · next rest hrest =>
    split at h
    · cases h
    · cases h
      have hafter : rest <:+ cs := by
        have hname := List.dropWhile_suffix (l := cs) isNameChar
        exact ((List.suffix_cons '=' rest).trans (hrest ▸ trimStart_isSuffix _)).trans hname
      exact ⟨(List.takeWhile_prefix isNameChar).isInfix,
        ((trimStart_isSuffix rest).trans hafter).isInfix⟩
  · cases h

theorem parts_of_boundFragment? (h : boundFragment? cs = some (fragment, rest)) :
    fragment <:+: cs ∧ rest <:+ cs := by
  obtain ⟨rest₁, h₁, h⟩ := Option.bind_eq_some_iff.mp h
  obtain ⟨rest₂, h₂, h⟩ := Option.bind_eq_some_iff.mp h
  obtain ⟨rest₃, h₃, h⟩ := Option.bind_eq_some_iff.mp h
  have hword : rest₂ <:+ rest₁ := by
    cases hwith : afterWord? "with" rest₁ with
    | some found =>
      rw [hwith] at h₂
      cases h₂
      exact isSuffix_of_afterWord? hwith
    | none =>
      rw [hwith] at h₂
      exact isSuffix_of_afterWord? h₂
  have hsuffix := (isSuffix_of_afterBlanks? h₃).trans
    (hword.trans (isSuffix_of_afterBlanks? h₁))
  have hcut := append_of_fragment? h
  exact ⟨List.IsInfix.trans ⟨[], rest, hcut⟩ hsuffix.isInfix,
    List.IsSuffix.trans ⟨fragment, hcut⟩ hsuffix⟩

theorem parts_of_splitTag? {name : String} (h : splitTag? cs = some (name, rest)) :
    name.toList <:+: cs ∧ rest <:+: cs := by
  unfold splitTag? at h
  dsimp only at h
  split at h
  · cases h
  · cases h
    rw [String.toList_ofList]
    exact ⟨(List.takeWhile_prefix isWordChar).isInfix,
      (trim_isInfix _).trans (List.dropWhile_suffix isWordChar).isInfix⟩

end

/-! ## Loops -/

/-- The expressions of a loop are written in the text. -/
structure LoopMarkup.IsIn (m : LoopMarkup) (cs : List Char) : Prop where
  item : m.item.toList <:+: cs
  collection : m.collection <:+: cs
  limit : ∀ part ∈ m.limit, part <:+: cs
  offset : ∀ part ∈ m.offset, part <:+: cs

theorem LoopMarkup.isIn_of_split? {cs : List Char} {m : LoopMarkup} (h : split? cs = some m) :
    m.IsIn cs := by
  unfold LoopMarkup.split? at h
  dsimp only at h
  split at h
  · cases h
  · obtain ⟨rest₁, h₁, h⟩ := Option.bind_eq_some_iff.mp h
    obtain ⟨rest₂, h₂, h⟩ := Option.bind_eq_some_iff.mp h
    obtain ⟨rest₃, h₃, h⟩ := Option.bind_eq_some_iff.mp h
    obtain ⟨⟨collection, rest₄⟩, h₄, h⟩ := Option.bind_eq_some_iff.mp h
    have hitem : (String.ofList (cs.takeWhile isWordChar)).toList <:+: cs := by
      rw [String.toList_ofList]
      exact (List.takeWhile_prefix isWordChar).isInfix
    have hrest₂ : rest₂ <:+ cs := by
      have hrest₁ := (isSuffix_of_afterBlanks? h₁).trans (List.dropWhile_suffix isWordChar)
      exact (isSuffix_of_afterWord? h₂).trans hrest₁
    have hrest₃ := (isSuffix_of_afterBlanks? h₃).trans hrest₂
    have hcut := append_of_fragment? h₄
    have hcollection : collection <:+: cs := List.IsInfix.trans ⟨[], rest₄, hcut⟩ hrest₃.isInfix
    have hrest₄ : rest₄ <:+ cs := List.IsSuffix.trans ⟨collection, hcut⟩ hrest₃
    have hlast : ∀ {rest : List Char}, rest <:+ cs → ∀ key,
        ∀ part ∈ lastValue key (Markup.attributes rest), part <:+: cs :=
      fun hrest key part hpart =>
        (parts_of_mem_attributes (mem_of_lastValue hpart)).2.trans hrest.isInfix
    cases hreversed : afterReversed? rest₄ with
    | none =>
      rw [hreversed] at h
      cases h
      exact ⟨hitem, hcollection, hlast hrest₄ _, hlast hrest₄ _⟩
    | some rest₅ =>
      rw [hreversed] at h
      cases h
      have hrest₅ := (isSuffix_of_afterReversed? hreversed).trans hrest₄
      exact ⟨hitem, hcollection, hlast hrest₅ _, hlast hrest₅ _⟩

end Markup

/-! ## Clauses -/

theorem mem_of_splitClause {words clause : List (List Char)}
    {more : Option (Connector × List (List Char))} (h : splitClause words = (clause, more)) :
    clause ⊆ words ∧ ∀ link ∈ more, link.2 ⊆ words := by
  induction words generalizing clause more with
  | nil =>
    cases h
    exact ⟨List.Subset.refl [], nofun⟩
  | cons word words ih =>
    have hwords : words ⊆ word :: words := List.subset_cons_self word words
    unfold splitClause at h
    split at h
    · cases h
      refine ⟨List.nil_subset _, ?_⟩
      rintro _ ⟨⟩
      exact hwords
    · obtain ⟨hclause, hmore⟩ := ih (Prod.eta (splitClause words)).symm
      cases h
      refine ⟨List.cons_subset_cons word hclause, fun link hlink => ?_⟩
      exact List.Subset.trans (hmore link hlink) hwords

/-! ## Tokens -/

namespace Token

theorem dropDashes_isInfix (cs : List Char) : dropDashes cs <:+: cs := by
  have hend : ∀ ds : List Char, ds <:+: cs →
      (if ds.getLast? = some '-' then ds.dropLast else ds) <:+: cs := by
    intro ds hds
    split
    · exact (List.dropLast_prefix ds).isInfix.trans hds
    · exact hds
  refine hend _ ?_
  split
  · exact (List.suffix_cons _ _).isInfix
  · exact List.infix_rfl

theorem markup_isInfix (t : Token) : t.markup <:+: t.value.toList := by
  unfold Token.markup
  dsimp only
  split
  · exact List.infix_rfl
  · have htake := List.take_prefix (t.value.toList.length - 2) t.value.toList
    have hinner := (List.drop_suffix 2 _).isInfix.trans htake.isInfix
    exact (trim_isInfix _).trans ((dropDashes_isInfix _).trans hinner)

theorem isInfix_of_mem_all {source : String} {t : Token} (h : t ∈ all source) :
    t.value.toList <:+: source.toList := by
  have hpart := number_isInfix h
  rwa [flatten_pieces] at hpart

end Token

end Stencil
