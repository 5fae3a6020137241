import Stencil.Proofs.Literal.Closing
import Stencil.Proofs.Token.Appended

/-!
# Scanning for the end of a literal block

The marker that a token ends in starts at the last of its openers that a word follows. A scan stops
at the first token with the marker that closes the block, and without any takes up all tokens.
-/

namespace Stencil.Literal

open Text

/-! ## Openers that a word follows -/

/--
At this place of a value stands an opener. After it come a dash at most, blanks, and the word as far
as it goes, all before the two characters that end the value.
-/
def NamedAt (value : List Char) (place : Nat) (name : List Char) : Prop :=
  IsWord name ∧ ∃ dash blanks more, (dash = [] ∨ dash = ['-']) ∧ AllBlank blanks ∧
    (∀ c ∈ more.head?, isWordChar c = false) ∧
    value.drop place = '{' :: '%' :: (dash ++ blanks ++ name ++ more ++ ['%', '}'])

/-- The last opener that a word follows stands at this place, and this is the word. -/
def Marks (value : List Char) (place : Nat) (name : List Char) : Prop :=
  NamedAt value place name ∧ ∀ later > place, ∀ name', ¬ NamedAt value later name'

/-- The value ends in the marker that closes the block, and the marker starts at this place. -/
def Closes (block : String) (value : List Char) (place : Nat) : Prop :=
  Marks value place ("end".toList ++ block.toList)

/-! ## Names -/

theorem takeWhile_trimStart {blanks name more : List Char} (hblanks : AllBlank blanks)
    (hname : IsWord name) (hmore : ∀ c ∈ more.head?, isWordChar c = false) :
    (trimStart (blanks ++ (name ++ more))).takeWhile isWordChar = name := by
  have hstart : trimStart (name ++ more) = name ++ more := by
    obtain ⟨c, cs, rfl⟩ := List.exists_cons_of_ne_nil hname.ne_nil
    exact trimStart_cons (hname.not_isBlank c List.mem_cons_self) _
  have hstop : more.takeWhile isWordChar = [] := by
    cases more with
    | nil => rfl
    | cons c cs => simp [hmore c rfl]
  rw [trimStart_append hblanks, hstart, List.takeWhile_append_of_pos hname.word, hstop,
    List.append_nil]

theorem markerName_of_ne_dash {cs : List Char} (h : cs.head? ≠ some '-') :
    markerName cs = (trimStart cs).takeWhile isWordChar := by
  unfold markerName
  split
  · simp at h
  · rfl

theorem head?_ne_dash {blanks name : List Char} (hblanks : AllBlank blanks) (hname : IsWord name)
    (more : List Char) : (blanks ++ (name ++ more)).head? ≠ some '-' := by
  intro h
  cases blanks with
  | nil =>
    obtain ⟨c, cs, rfl⟩ := List.exists_cons_of_ne_nil hname.ne_nil
    obtain rfl : c = '-' := by simpa using h
    have hword := hname.word '-' List.mem_cons_self
    exact absurd hword (by decide +kernel)
  | cons c cs =>
    obtain rfl : c = '-' := by simpa using h
    exact absurd (hblanks '-' List.mem_cons_self) (by decide)

theorem markerName_eq_iff {inner name : List Char} (hne : name ≠ []) :
    markerName inner = name ↔ IsWord name ∧ ∃ dash blanks more, (dash = [] ∨ dash = ['-']) ∧
      AllBlank blanks ∧ (∀ c ∈ more.head?, isWordChar c = false) ∧
      inner = dash ++ blanks ++ name ++ more := by
  constructor
  · have hparts : ∀ cs, (trimStart cs).takeWhile isWordChar = name →
        IsWord name ∧ ∃ blanks more, AllBlank blanks ∧
          (∀ c ∈ more.head?, isWordChar c = false) ∧ cs = blanks ++ name ++ more := by
      rintro cs rfl
      obtain ⟨blanks, hblanks, hcs⟩ := exists_trimStart cs
      refine ⟨⟨hne, fun c hc => List.mem_takeWhile_imp hc⟩, blanks,
        (trimStart cs).dropWhile isWordChar, hblanks, ?_, ?_⟩
      · intro c hc
        have hstop := List.head?_dropWhile_not isWordChar (trimStart cs)
        rw [Option.mem_def.mp hc] at hstop
        exact hstop
      · rw [List.append_assoc, List.takeWhile_append_dropWhile, ← hcs]
    intro h
    unfold markerName at h
    split at h
    · next rest =>
      obtain ⟨hname, blanks, more, hblanks, hmore, rfl⟩ := hparts _ h
      exact ⟨hname, ['-'], blanks, more, .inr rfl, hblanks, hmore, by simp⟩
    · obtain ⟨hname, blanks, more, hblanks, hmore, heq⟩ := hparts _ h
      exact ⟨hname, [], blanks, more, .inl rfl, hblanks, hmore, by simpa using heq⟩
  · rintro ⟨hname, dash, blanks, more, rfl | rfl, hblanks, hmore, rfl⟩
    · simp only [List.nil_append, List.append_assoc]
      rw [markerName_of_ne_dash (head?_ne_dash hblanks hname more)]
      exact takeWhile_trimStart hblanks hname hmore
    · simp only [List.append_assoc]
      exact takeWhile_trimStart hblanks hname hmore

theorem namedAt_iff {value name : List Char} {place : Nat} :
    NamedAt value place name ↔ name ≠ [] ∧
      ∃ inner, value.drop place = '{' :: '%' :: (inner ++ ['%', '}']) ∧
        markerName inner = name := by
  constructor
  · rintro ⟨hname, dash, blanks, more, hdash, hblanks, hmore, hvalue⟩
    refine ⟨hname.ne_nil, _, hvalue, ?_⟩
    exact (markerName_eq_iff hname.ne_nil).mpr
      ⟨hname, dash, blanks, more, hdash, hblanks, hmore, rfl⟩
  · rintro ⟨hne, inner, hvalue, hinner⟩
    obtain ⟨hname, dash, blanks, more, hdash, hblanks, hmore, rfl⟩ :=
      (markerName_eq_iff hne).mp hinner
    exact ⟨hname, dash, blanks, more, hdash, hblanks, hmore, hvalue⟩

theorem NamedAt.unique {value name name' : List Char} {place : Nat} (h : NamedAt value place name)
    (h' : NamedAt value place name') : name = name' := by
  obtain ⟨-, inner, hvalue, rfl⟩ := namedAt_iff.mp h
  obtain ⟨-, inner', hvalue', rfl⟩ := namedAt_iff.mp h'
  obtain rfl : inner = inner' := by simpa using hvalue.symm.trans hvalue'
  rfl

theorem NamedAt.ends {value name : List Char} {place : Nat} (h : NamedAt value place name) :
    ['%', '}'] <:+ value := by
  obtain ⟨-, inner, hvalue, -⟩ := namedAt_iff.mp h
  have hdrop : ['%', '}'] <:+ value.drop place := ⟨'{' :: '%' :: inner, by simp [hvalue]⟩
  exact hdrop.trans (List.drop_suffix place value)

theorem namedAt_cons {c : Char} {rest name : List Char} {place : Nat} :
    NamedAt (c :: rest) (place + 1) name ↔ NamedAt rest place name := Iff.rfl

/-! ## The last opener -/

theorem Marks.cons {rest name : List Char} {place : Nat} (h : Marks rest place name) (c : Char) :
    Marks (c :: rest) (place + 1) name := by
  refine ⟨namedAt_cons.mpr h.1, fun later hlater name' => ?_⟩
  obtain ⟨later, rfl⟩ := Nat.exists_eq_add_of_lt (Nat.zero_lt_of_lt hlater)
  rw [Nat.zero_add]
  exact h.2 later (by omega) name'

theorem Marks.unique {value name name' : List Char} {place place' : Nat}
    (h : Marks value place name) (h' : Marks value place' name') :
    place = place' ∧ name = name' := by
  obtain rfl : place = place' := by
    rcases Nat.lt_trichotomy place place' with hlt | heq | hgt
    · exact absurd h'.1 (h.2 _ hlt _)
    · exact heq
    · exact absurd h.1 (h'.2 _ hgt _)
  exact ⟨rfl, h.1.unique h'.1⟩

theorem not_namedAt_of_length {value name : List Char} {place : Nat} (h : value.length < 4) :
    ¬ NamedAt value place name := by
  intro hnamed
  obtain ⟨-, inner, hvalue, -⟩ := namedAt_iff.mp hnamed
  have hlength := congrArg List.length hvalue
  simp at hlength
  omega

theorem namedAt_zero {inner name : List Char} (hend : ['%', '}'] <:+ '%' :: inner) :
    NamedAt ('{' :: '%' :: inner) 0 name ↔
      name ≠ [] ∧ markerName (inner.take (inner.length - 2)) = name := by
  rcases List.suffix_cons_iff.mp hend with heq | ⟨front, rfl⟩
  · -- The two characters that end the value overlap the opener, so nothing stands between them.
    cases heq
    refine iff_of_false (not_namedAt_of_length (by decide)) ?_
    rintro ⟨hne, hname⟩
    exact hne hname.symm
  · have hfront : (front ++ ['%', '}']).take ((front ++ ['%', '}']).length - 2) = front := by simp
    rw [hfront, namedAt_iff]
    simp

/-- No opener of the value has a word after it, or the last that has one is the marker. -/
theorem lastMarker?_marks {value : List Char} (hend : ['%', '}'] <:+ value) :
    (∀ leading name, lastMarker? value = some (leading, name) →
      ∃ place, leading = value.take place ∧ Marks value place name) ∧
    (lastMarker? value = none → ∀ place name, ¬ NamedAt value place name) := by
  induction value with
  | nil => simp at hend
  | cons c rest ih =>
    rcases List.suffix_cons_iff.mp hend with heq | hrest
    · cases heq
      refine ⟨?_, fun _ _ _ => not_namedAt_of_length (by decide)⟩
      intro leading name h
      cases h
    obtain ⟨hsome, hnone⟩ := ih hrest
    rw [lastMarker?.eq_def]
    simp only
    cases hlast : lastMarker? rest with
    | some found =>
      constructor
      · rintro _ name ⟨⟩
        obtain ⟨place, hleading, hmarks⟩ := hsome found.1 found.2 hlast
        exact ⟨place + 1, by rw [hleading, List.take_succ_cons], hmarks.cons c⟩
      · rintro ⟨⟩
    | none =>
      have hlater : ∀ later > 0, ∀ name, ¬ NamedAt (c :: rest) later name := by
        intro later hpos name
        obtain ⟨later, rfl⟩ := Nat.exists_eq_add_of_lt hpos
        rw [Nat.zero_add]
        exact hnone hlast later name
      simp only
      split
      · next inner =>
        have hzero : ∀ name, NamedAt ('{' :: '%' :: inner) 0 name ↔ _ := fun _ =>
          namedAt_zero hrest
        split
        · next hempty =>
          constructor
          · rintro leading name ⟨⟩
          · intro _ place name
            by_cases hplace : 0 < place
            · exact hlater place hplace name
            · obtain rfl : place = 0 := by omega
              rw [hzero, hempty]
              rintro ⟨hne, rfl⟩
              exact hne rfl
        · next hne =>
          constructor
          · rintro _ name ⟨⟩
            exact ⟨0, rfl, (hzero _).mpr ⟨hne, rfl⟩, hlater⟩
          · rintro ⟨⟩
      · next hopener =>
        constructor
        · rintro leading name ⟨⟩
        · intro _ place name
          by_cases hplace : 0 < place
          · exact hlater place hplace name
          · obtain rfl : place = 0 := by omega
            intro hnamed
            obtain ⟨-, inner, hvalue, -⟩ := namedAt_iff.mp hnamed
            cases hvalue
            exact hopener _ rfl rfl

theorem closing?_eq_some_iff_closes {block : String} {value leading : List Char} :
    closing? block value = some leading ↔
      ∃ place, leading = value.take place ∧ Closes block value place := by
  rw [closing?_eq_some_iff]
  constructor
  · rintro ⟨hend, hlast⟩
    exact (lastMarker?_marks hend).1 _ _ hlast
  · rintro ⟨place, rfl, hcloses⟩
    have hend : ['%', '}'] <:+ value := hcloses.1.ends
    obtain ⟨hsome, hnone⟩ := lastMarker?_marks hend
    refine ⟨hend, ?_⟩
    cases hlast : lastMarker? value with
    | none => exact absurd hcloses.1 (hnone hlast _ _)
    | some found =>
      obtain ⟨leading, name⟩ := found
      obtain ⟨place', rfl, hmarks⟩ := hsome leading name hlast
      obtain ⟨rfl, rfl⟩ := hmarks.unique hcloses
      rfl

theorem closing?_eq_none_iff_closes {block : String} {value : List Char} :
    closing? block value = none ↔ ∀ place, ¬ Closes block value place := by
  simp only [Option.eq_none_iff_forall_ne_some, ne_eq, closing?_eq_some_iff_closes]
  constructor
  · intro h place hcloses
    exact h _ ⟨place, rfl, hcloses⟩
  · rintro h leading ⟨place, -, hcloses⟩
    exact h place hcloses

/-! ## The first token that closes the block -/

theorem scan?_eq_none_iff {block : String} {ts : List Token} :
    scan? block ts = none ↔ ∀ t ∈ ts, ∀ place, ¬ Closes block t.value.toList place := by
  simp only [← closing?_eq_none_iff_closes]
  induction ts with
  | nil => simp [scan?]
  | cons t ts ih =>
    rw [scan?]
    cases hclosing : closing? block t.value.toList with
    | none => simp [hclosing, ih]
    | some leading => simp [hclosing]

theorem scan?_eq_some_iff {block : String} {ts after : List Token} {body : List Char} :
    scan? block ts = some (body, after) ↔
      ∃ before t place, ts = before ++ t :: after ∧
        (∀ u ∈ before, ∀ place, ¬ Closes block u.value.toList place) ∧
        Closes block t.value.toList place ∧ body = text before ++ t.value.toList.take place := by
  simp only [← closing?_eq_none_iff_closes]
  constructor
  · intro h
    induction ts generalizing body with
    | nil => cases h
    | cons t ts ih =>
      rw [scan?] at h
      cases hclosing : closing? block t.value.toList with
      | some leading =>
        obtain ⟨place, rfl, hcloses⟩ := closing?_eq_some_iff_closes.mp hclosing
        rw [hclosing] at h
        cases h
        exact ⟨[], t, place, rfl, List.forall_mem_nil _, hcloses, rfl⟩
      | none =>
        rw [hclosing] at h
        obtain ⟨⟨body', after'⟩, hscan, heq⟩ := Option.map_eq_some_iff.mp h
        cases heq
        obtain ⟨before, u, place, rfl, hbefore, hcloses, rfl⟩ := ih hscan
        refine ⟨t :: before, u, place, rfl, ?_, hcloses, ?_⟩
        · exact List.forall_mem_cons.mpr ⟨hclosing, hbefore⟩
        · simp [text]
  · rintro ⟨before, t, place, rfl, hbefore, hcloses, rfl⟩
    have hclosing : closing? block t.value.toList = some (t.value.toList.take place) :=
      closing?_eq_some_iff_closes.mpr ⟨place, rfl, hcloses⟩
    rw [scan?_append hbefore, scan?_of_closing hclosing]
    rfl

theorem scan_of_split {block : String} {s : TokenStream} {before after : List Token} {t : Token}
    {body : List Char} (hrest : s.rest = before ++ t :: after)
    (h : scan? block s.rest = some (body, after)) :
    scan block s = (.ok (String.ofList body), ⟨after, t.line⟩) := by
  have hread : s.rest.take (s.rest.length - after.length) = before ++ [t] := by
    rw [List.append_cons] at hrest
    rw [hrest, List.length_append, Nat.add_sub_cancel, List.take_left]
  unfold scan
  rw [h]
  simp only [hread]
  simp

/--
A scan for the end of a block stops at the first token that ends in the marker that closes it. What
it read is the text of the tokens before and what stands in front of the marker, and only the tokens
after it are left. Without such a token the block is never closed, and no token is left.
-/
theorem scan_stops_at_first_closing (block : String) (s : TokenStream) :
    (∀ body s', scan block s = (.ok body, s') ↔
      ∃ before t after place, s.rest = before ++ t :: after ∧
        (∀ u ∈ before, ∀ place, ¬ Closes block u.value.toList place) ∧
        Closes block t.value.toList place ∧
        body = String.ofList (text before ++ t.value.toList.take place) ∧ s' = ⟨after, t.line⟩) ∧
    ∀ e s', scan block s = (.error e, s') ↔
      (∀ t ∈ s.rest, ∀ place, ¬ Closes block t.value.toList place) ∧
        e = .ofFault (.unterminated block) ∧ s' = s.drained := by
  cases hscan : scan? block s.rest with
  | none =>
    have hresult : scan block s = (.error (.ofFault (.unterminated block)), s.drained) := by
      unfold scan
      rw [hscan]
    rw [hresult]
    have hopen := scan?_eq_none_iff.mp hscan
    refine ⟨fun body s' => iff_of_false nofun ?_, fun e s' => ?_⟩
    · rintro ⟨before, t, after, place, hrest, -, hcloses, -⟩
      exact hopen t (by simp [hrest]) place hcloses
    · simp only [Prod.mk.injEq, Except.error.injEq, eq_comm]
      exact ⟨fun h => ⟨hopen, h⟩, fun h => h.2⟩
  | some found =>
    obtain ⟨body, after⟩ := found
    obtain ⟨before, t, place, hrest, hbefore, hcloses, rfl⟩ := scan?_eq_some_iff.mp hscan
    have hresult := scan_of_split hrest hscan
    rw [hresult]
    refine ⟨fun body s' => ?_, fun e s' => iff_of_false nofun ?_⟩
    · constructor
      · rintro ⟨⟩
        exact ⟨before, t, after, place, hrest, hbefore, hcloses, rfl, rfl⟩
      · rintro ⟨before', t', after', place', hrest', hbefore', hcloses', rfl, rfl⟩
        have hscan' : scan? block s.rest = _ :=
          scan?_eq_some_iff.mpr ⟨before', t', place', hrest', hbefore', hcloses', rfl⟩
        rw [← hresult, scan_of_split hrest' hscan']
    · rintro ⟨hopen, -⟩
      exact hopen t (by simp [hrest]) place hcloses

end Stencil.Literal
