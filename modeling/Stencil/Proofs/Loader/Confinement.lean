import Stencil.Loader.Basic

/-!
# Searches that stay inside their directories

A path leads up by its steps `..` and down by all others, so what it leads to is a part of the place
it starts from and names below that. A search gives a file only if its place is at or below the
place of the directory, and of the first directory only that has one.
-/

namespace Stencil

namespace Path

/-! ## Places -/

/-- A single step that leads down, and neither stays nor leads up. -/
def IsName (step : String) : Prop := step ≠ "" ∧ step ≠ "." ∧ step ≠ ".." ∧ '/' ∉ step.toList

theorem slash_not_mem_of_mem_splitOn {cs piece : List Char} (h : piece ∈ cs.splitOn '/') :
    '/' ∉ piece := by
  rw [List.splitOn_eq_splitOnP] at h
  induction cs generalizing piece with
  | nil =>
    rw [List.splitOnP_nil, List.mem_singleton] at h
    simp [h]
  | cons c rest ih =>
    rw [List.splitOnP_cons_eq_if_modifyHead] at h
    split at h
    · rcases List.mem_cons.mp h with rfl | h
      · exact List.not_mem_nil
      · exact ih h
    · next hc =>
      cases hpieces : rest.splitOnP (· == '/') with
      | nil => simp [hpieces] at h
      | cons first others =>
        rw [hpieces] at ih h
        rcases List.mem_cons.mp h with rfl | h
        · have hfirst : '/' ∉ first := ih List.mem_cons_self
          simp only [List.mem_cons, not_or]
          exact ⟨fun hslash => hc (beq_iff_eq.mpr hslash.symm), hfirst⟩
        · exact ih (List.mem_cons_of_mem _ h)

theorem isName_of_mem_ofText {text step : String} (h : step ∈ (ofText text).steps)
    (hup : step ≠ "..") : IsName step := by
  simp only [ofText, stepsOf, List.mem_filter, List.mem_map, Bool.and_eq_true,
    decide_eq_true_eq] at h
  obtain ⟨⟨piece, hpiece, rfl⟩, hempty, hdot⟩ := h
  refine ⟨hempty, hdot, hup, ?_⟩
  rw [String.toList_ofList]
  exact slash_not_mem_of_mem_splitOn hpiece

theorem steps_join (p q : Path) : ∀ step ∈ (p.join q).steps, step ∈ p.steps ∨ step ∈ q.steps := by
  intro step hstep
  unfold join at hstep
  split at hstep
  · exact .inr hstep
  · exact List.mem_append.mp hstep

/-- Steps lead to a part of the place they start from, and to names below that. -/
theorem exists_walk_eq (place steps : List String) :
    ∃ k added, steps.foldl walk place = place.take k ++ added ∧
      ∀ step ∈ added, step ∈ steps ∧ step ≠ ".." := by
  induction steps generalizing place with
  | nil => exact ⟨place.length, [], by simp, by simp⟩
  | cons step steps ih =>
    obtain ⟨k, added, hwalk, hadded⟩ := ih (walk place step)
    rw [List.foldl_cons, hwalk]
    have hlater : ∀ other ∈ added, other ∈ step :: steps ∧ other ≠ ".." :=
      fun other hother => ⟨List.mem_cons_of_mem _ (hadded other hother).1, (hadded other hother).2⟩
    by_cases hup : step = ".."
    · rw [walk, if_pos hup, List.dropLast_eq_take, List.take_take]
      exact ⟨_, added, rfl, hlater⟩
    · rw [walk, if_neg hup, List.take_append, List.append_assoc]
      refine ⟨k, _, rfl, ?_⟩
      intro other hother
      rcases List.mem_append.mp hother with hother | hother
      · obtain rfl := List.mem_singleton.mp (List.mem_of_mem_take hother)
        exact ⟨List.mem_cons_self, hup⟩
      · exact hlater other hother

theorem resolve_join_of_relative {p q : Path} (h : ¬ q.isAbsolute) (working : List String) :
    (p.join q).resolve working = q.steps.foldl walk (p.resolve working) := by
  unfold join
  rw [if_neg h]
  exact List.foldl_append

theorem names_below {p q : Path} {working inner : List String}
    (h : (p.join q).resolve working = p.resolve working ++ inner) :
    ∀ step ∈ inner, step ∈ q.steps ∧ step ≠ ".." := by
  have hwalk : ∃ k added, (p.join q).resolve working = (p.resolve working).take k ++ added ∧
      ∀ step ∈ added, step ∈ q.steps ∧ step ≠ ".." := by
    by_cases habsolute : q.isAbsolute
    · obtain ⟨k, added, hresolve, hadded⟩ := exists_walk_eq [] q.steps
      refine ⟨0, added, ?_, hadded⟩
      rw [join, if_pos habsolute, resolve, if_pos habsolute, hresolve]
      simp
    · rw [resolve_join_of_relative habsolute]
      exact exists_walk_eq _ _
  obtain ⟨k, added, hplace, hadded⟩ := hwalk
  intro step hstep
  -- The names beyond the length of the first place are among the added ones.
  have hinner : inner = ((p.resolve working).take k ++ added).drop (p.resolve working).length := by
    rw [← hplace, h, List.drop_left]
  rw [hinner, List.drop_append, List.drop_eq_nil_of_le (List.length_take_le' ..),
    List.nil_append] at hstep
  exact hadded step (List.mem_of_mem_drop hstep)

end Path

namespace FileSearch

/-! ## One directory -/

/-- Where a directory is. -/
def root (s : FileSearch) (base : Path) : List String := base.resolve s.tree.working

/-- Where a directory would have a file under a relative path. -/
def place (s : FileSearch) (relative base : Path) : List String :=
  (base.join relative).resolve s.tree.working

/-- The path can be looked up in the directory and does not leave it. -/
structure StaysIn (s : FileSearch) (relative base : Path) : Prop where
  noNul : (base.hasNul || relative.hasNul) = false
  inside : s.root base <+: s.place relative base
  fits : s.tree.isTooLong (s.place relative base) = false

/-- The directory has this file at the path. -/
structure Finds (s : FileSearch) (relative base : Path) (bytes : ByteArray) : Prop extends
    StaysIn s relative base where
  file : s.tree.files.lookup (s.place relative base) = some bytes

/-- The directory has no file at the path. -/
structure Misses (s : FileSearch) (relative base : Path) : Prop extends
    StaysIn s relative base where
  noFile : s.tree.files.lookup (s.place relative base) = none

/-- Why a search fails at a directory, whatever comes after it. -/
inductive FailsAt (s : FileSearch) (name : String) (relative base : Path) : Error → Prop
  | nul : (base.hasNul || relative.hasNul) = true →
    FailsAt s name relative base (.file .nulInPath)
  | outside : (base.hasNul || relative.hasNul) = false →
    ¬ s.root base <+: s.place relative base →
    FailsAt s name relative base (.notFound (.outside name))
  | tooLong : (base.hasNul || relative.hasNul) = false →
    s.root base <+: s.place relative base →
    s.tree.isTooLong (s.place relative base) = true →
    FailsAt s name relative base (.file .nameTooLong)
  | undecodable {bytes : ByteArray} : s.Finds relative base bytes →
    s.encoding.decode? bytes = none →
    FailsAt s name relative base (.file .undecodable)

section

variable {s : FileSearch} {name : String} {relative base : Path} {bytes : ByteArray}
  {more : List Path}

theorem StaysIn.searchIn_cons (h : s.StaysIn relative base) :
    s.searchIn name relative (base :: more) =
      match s.tree.files.lookup (s.place relative base) with
      | some bytes =>
        match s.encoding.decode? bytes with
        | some text => .ok ⟨text, some (base.join relative).text⟩
        | none => .error (.file .undecodable)
      | none => s.searchIn name relative more := by
  have hinside : (base.resolve s.tree.working).isPrefixOf
      ((base.join relative).resolve s.tree.working) = true :=
    List.isPrefixOf_iff_prefix.mpr h.inside
  have hread : s.tree.read? ((base.join relative).resolve s.tree.working) =
      .ok (s.tree.files.lookup (s.place relative base)) := by
    rw [FileTree.read?, ← place, h.fits]
    rfl
  rw [searchIn, h.noNul, hinside, hread]
  cases s.tree.files.lookup (s.place relative base) <;> rfl

theorem Misses.searchIn_cons (h : s.Misses relative base) :
    s.searchIn name relative (base :: more) = s.searchIn name relative more := by
  rw [h.toStaysIn.searchIn_cons, h.noFile]

theorem Finds.searchIn_cons (h : s.Finds relative base bytes) {text : String}
    (htext : s.encoding.decode? bytes = some text) :
    s.searchIn name relative (base :: more) = .ok ⟨text, some (base.join relative).text⟩ := by
  simp only [h.toStaysIn.searchIn_cons, h.file, htext]

theorem FailsAt.searchIn_cons {error : Error} (h : s.FailsAt name relative base error) :
    s.searchIn name relative (base :: more) = .error error := by
  cases h with
  | nul hnul => rw [searchIn, if_pos hnul]
  | outside hnul houtside =>
    rw [← List.isPrefixOf_iff_prefix, Bool.not_eq_true] at houtside
    rw [searchIn, if_neg (by simp [hnul]), if_pos (by rw [← root, ← place, houtside]; rfl)]
  | tooLong hnul hinside hlong =>
    have hread : s.tree.read? ((base.join relative).resolve s.tree.working) =
        .error .nameTooLong := by
      rw [FileTree.read?, ← place, if_pos hlong]
    rw [searchIn, if_neg (by simp [hnul]), if_neg, hread]
    rw [← root, ← place, List.isPrefixOf_iff_prefix.mpr hinside]
    exact Bool.false_ne_true
  | undecodable hfinds hbytes => simp only [hfinds.toStaysIn.searchIn_cons, hfinds.file, hbytes]

/-- What may come of a directory. -/
inductive Outcome (s : FileSearch) (name : String) (relative base : Path) : Prop
  | finds (bytes : ByteArray) (text : String) : s.Finds relative base bytes →
    s.encoding.decode? bytes = some text → Outcome s name relative base
  | misses : s.Misses relative base → Outcome s name relative base
  | fails (error : Error) : s.FailsAt name relative base error → Outcome s name relative base

theorem outcome (s : FileSearch) (name : String) (relative base : Path) :
    s.Outcome name relative base := by
  cases hnul : base.hasNul || relative.hasNul with
  | true => exact .fails _ (.nul hnul)
  | false =>
    by_cases hinside : s.root base <+: s.place relative base
    · cases hlong : s.tree.isTooLong (s.place relative base) with
      | true => exact .fails _ (.tooLong hnul hinside hlong)
      | false =>
        have hstays : s.StaysIn relative base := ⟨hnul, hinside, hlong⟩
        cases hfile : s.tree.files.lookup (s.place relative base) with
        | none => exact .misses ⟨hstays, hfile⟩
        | some bytes =>
          have hfinds : s.Finds relative base bytes := ⟨hstays, hfile⟩
          cases htext : s.encoding.decode? bytes with
          | none => exact .fails _ (.undecodable hfinds htext)
          | some text => exact .finds bytes text hfinds htext
    · exact .fails _ (.outside hnul hinside)

/-! ## All directories -/

theorem searchIn_append_of_misses {before : List Path}
    (h : ∀ earlier ∈ before, s.Misses relative earlier) (after : List Path) :
    s.searchIn name relative (before ++ after) = s.searchIn name relative after := by
  induction before with
  | nil => rfl
  | cons base before ih =>
    rw [List.cons_append, (h base List.mem_cons_self).searchIn_cons]
    exact ih fun earlier hearlier => h earlier (List.mem_cons_of_mem _ hearlier)

/-- The search comes to this directory, since those before it do not have the file. -/
def ComesTo (s : FileSearch) (relative : Path) (directories : List Path) (base : Path) : Prop :=
  ∃ before after, directories = before ++ base :: after ∧
    ∀ earlier ∈ before, s.Misses relative earlier

theorem ComesTo.exists_searchIn_eq {directories : List Path}
    (h : s.ComesTo relative directories base) (name : String) :
    ∃ after, s.searchIn name relative directories = s.searchIn name relative (base :: after) := by
  obtain ⟨before, after, rfl, hbefore⟩ := h
  exact ⟨after, searchIn_append_of_misses hbefore _⟩

theorem ComesTo.cons {directories : List Path} {first : Path} (hfirst : s.Misses relative first)
    (h : s.ComesTo relative directories base) : s.ComesTo relative (first :: directories) base := by
  obtain ⟨before, after, rfl, hbefore⟩ := h
  exact ⟨first :: before, after, rfl, List.forall_mem_cons.mpr ⟨hfirst, hbefore⟩⟩

/-- Either no directory has the file, or the search comes to one at which it ends. -/
theorem all_miss_or_comes_to (s : FileSearch) (relative : Path) (directories : List Path) :
    (∀ base ∈ directories, s.Misses relative base) ∨
      ∃ base, s.ComesTo relative directories base ∧ ¬ s.Misses relative base := by
  induction directories with
  | nil => exact .inl (by simp)
  | cons first directories ih =>
    by_cases hfirst : s.Misses relative first
    · rcases ih with hall | ⟨base, hcomes, hbase⟩
      · exact .inl (List.forall_mem_cons.mpr ⟨hfirst, hall⟩)
      · exact .inr ⟨base, hcomes.cons hfirst, hbase⟩
    · exact .inr ⟨first, ⟨[], directories, rfl, by simp⟩, hfirst⟩

variable {directories : List Path}

theorem searchIn_eq_ok_iff {source : Source} :
    s.searchIn name relative directories = .ok source ↔
      ∃ base bytes text, s.ComesTo relative directories base ∧ s.Finds relative base bytes ∧
        s.encoding.decode? bytes = some text ∧
        source = ⟨text, some (base.join relative).text⟩ := by
  constructor
  · intro h
    rcases s.all_miss_or_comes_to relative directories with hall | ⟨base, hcomes, hbase⟩
    · rw [← List.append_nil directories, searchIn_append_of_misses hall, searchIn] at h
      cases h
    · obtain ⟨after, hsearch⟩ := hcomes.exists_searchIn_eq name
      rw [hsearch] at h
      rcases s.outcome name relative base with
        ⟨bytes, text, hfinds, htext⟩ | hmisses | ⟨error, hfails⟩
      · rw [hfinds.searchIn_cons htext] at h
        cases h
        exact ⟨base, bytes, text, hcomes, hfinds, htext, rfl⟩
      · exact absurd hmisses hbase
      · rw [hfails.searchIn_cons] at h
        cases h
  · rintro ⟨base, bytes, text, hcomes, hfinds, htext, rfl⟩
    obtain ⟨after, hsearch⟩ := hcomes.exists_searchIn_eq name
    rw [hsearch, hfinds.searchIn_cons htext]

theorem searchIn_eq_error_iff {error : Error} :
    s.searchIn name relative directories = .error error ↔
      (error = .notFound (.absent name (s.directories.map Path.text)) ∧
          ∀ base ∈ directories, s.Misses relative base) ∨
        ∃ base, s.ComesTo relative directories base ∧ s.FailsAt name relative base error := by
  constructor
  · intro h
    rcases s.all_miss_or_comes_to relative directories with hall | ⟨base, hcomes, hbase⟩
    · rw [← List.append_nil directories, searchIn_append_of_misses hall, searchIn] at h
      cases h
      exact .inl ⟨rfl, hall⟩
    · obtain ⟨after, hsearch⟩ := hcomes.exists_searchIn_eq name
      rw [hsearch] at h
      rcases s.outcome name relative base with
        ⟨bytes, text, hfinds, htext⟩ | hmisses | ⟨error, hfails⟩
      · rw [hfinds.searchIn_cons htext] at h
        cases h
      · exact absurd hmisses hbase
      · rw [hfails.searchIn_cons] at h
        cases h
        exact .inr ⟨base, hcomes, hfails⟩
  · rintro (⟨rfl, hall⟩ | ⟨base, hcomes, hfails⟩)
    · rw [← List.append_nil directories, searchIn_append_of_misses hall, searchIn]
    · obtain ⟨after, hsearch⟩ := hcomes.exists_searchIn_eq name
      rw [hsearch, hfails.searchIn_cons]

theorem isName_of_mem_relativePath (h : s.relativePath name = .ok relative) {step : String}
    (hstep : step ∈ relative.steps) (hup : step ≠ "..") : Path.IsName step := by
  unfold relativePath at h
  cases hfill : Pattern.fill s.pattern (String.ofList (Text.afterLast '/' name.toList)) with
  | error fault =>
    rw [hfill] at h
    cases h
  | ok file =>
    rw [hfill] at h
    cases h
    rcases Path.steps_join _ _ step hstep with hstep | hstep
    · exact Path.isName_of_mem_ofText hstep hup
    · exact Path.isName_of_mem_ofText hstep hup

/--
A template is the text of a file whose place is a part of the place of its directory and names below
that, and no directory before has a file at the path. Without one there is no template, unless a
path cannot be looked up or the bytes of its file are no text.
-/
theorem search_stays_inside (s : FileSearch) (name : String) (relative : Path)
    (h : s.relativePath name = .ok relative) :
    (∀ source, s.get name = .ok source ↔
      ∃ base bytes text, s.ComesTo relative s.directories base ∧ s.Finds relative base bytes ∧
        s.encoding.decode? bytes = some text ∧
        source = ⟨text, some (base.join relative).text⟩) ∧
    (∀ base bytes, s.Finds relative base bytes →
      ∃ inner, s.place relative base = s.root base ++ inner ∧
        ∀ step ∈ inner, Path.IsName step) ∧
    (∀ error, s.get name = .error error ↔
      (error = .notFound (.absent name (s.directories.map Path.text)) ∧
          ∀ base ∈ s.directories, s.Misses relative base) ∨
        ∃ base, s.ComesTo relative s.directories base ∧
          s.FailsAt name relative base error) := by
  have hget : s.get name = s.searchIn name relative s.directories := by rw [get, h]
  refine ⟨?_, ?_, ?_⟩
  · intro source
    rw [hget]
    exact searchIn_eq_ok_iff
  · intro base bytes hfinds
    obtain ⟨inner, hinner⟩ := hfinds.inside
    have hbelow : ∀ step ∈ inner, step ∈ relative.steps ∧ step ≠ ".." :=
      Path.names_below hinner.symm
    exact ⟨inner, hinner.symm, fun step hstep =>
      isName_of_mem_relativePath h (hbelow step hstep).1 (hbelow step hstep).2⟩
  · intro error
    rw [hget]
    exact searchIn_eq_error_iff

/-- Two directories, of which the second has a file. -/
def twoDirectories (pattern : String) : FileSearch where
  tree := FileTree.ofFiles ["work"] [("second/page.txt", ⟨#[104, 105]⟩)]
  directories := [Path.ofText "first", Path.ofText "second"]
  encoding := .latin1
  pattern := pattern

theorem search_passes_a_directory_without_the_file :
    (twoDirectories "\x7bname\x7d.txt").relativePath "a/../page" =
        .ok ⟨"", ["a", "..", "page.txt"]⟩ ∧
      (twoDirectories "\x7bname\x7d.txt").get "a/../page" =
        .ok ⟨"hi", some "second/a/../page.txt"⟩ := by
  have hrelative : (twoDirectories "\x7bname\x7d.txt").relativePath "a/../page" =
      .ok ⟨"", ["a", "..", "page.txt"]⟩ := by
    with_unfolding_all rfl
  have hfirst : (twoDirectories "\x7bname\x7d.txt").Misses ⟨"", ["a", "..", "page.txt"]⟩
      (Path.ofText "first") :=
    ⟨⟨rfl, by decide +kernel, by decide +kernel⟩, rfl⟩
  have hsecond : (twoDirectories "\x7bname\x7d.txt").Finds ⟨"", ["a", "..", "page.txt"]⟩
      (Path.ofText "second") ⟨#[104, 105]⟩ :=
    ⟨⟨rfl, by decide +kernel, by decide +kernel⟩, rfl⟩
  have htext : Encoding.latin1.decode? ⟨#[104, 105]⟩ = some "hi" := by with_unfolding_all rfl
  refine ⟨hrelative, ((search_stays_inside _ _ _ hrelative).1 _).mpr
    ⟨_, _, "hi", ⟨[_], [], rfl, ?_⟩, hsecond, htext, rfl⟩⟩
  simpa using hfirst

theorem search_fails_at_zero_character :
    ¬ ∀ (s : FileSearch) (name : String) (relative : Path) (error : Error),
      s.relativePath name = .ok relative → '\x00' ∉ name.toList → s.get name = .error error →
      (∃ absence, error = .notFound absence) ∨ error = .file .undecodable ∨
        error = .file .nameTooLong := by
  intro h
  have hrelative : (twoDirectories "\x7bname\x7d\x00").relativePath "page" =
      .ok ⟨"", ["page\x00"]⟩ := by
    with_unfolding_all rfl
  have hget : (twoDirectories "\x7bname\x7d\x00").get "page" = .error (.file .nulInPath) := by
    with_unfolding_all rfl
  rcases h _ _ _ _ hrelative (by decide) hget with ⟨absence, herror⟩ | herror | herror <;>
    cases herror

end

end FileSearch

end Stencil
