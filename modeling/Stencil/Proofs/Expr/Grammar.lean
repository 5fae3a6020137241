import Stencil.Expr.Parsing
import Stencil.Proofs.Expr.Lexing
import Stencil.Proofs.Expr.Visit

/-!
# The grammar of expressions

A number, a quoted text, a keyword, a range in parentheses, or a name or a bracketed expression with
a path after it. Reading accepts what this grammar derives, all of it and with the tree that it was
derived with. The lexemes of a derivation never run on into one another, so their text is cut into
them however they are spaced.
-/

namespace Stencil.Expr

open Text Lexeme

/-- What a run of lexemes may write. -/
inductive Phrase
  | expr (e : Expr)
  | path (keys : List Key)

inductive Derives (markup : String) : Phrase → List Lexeme → Prop
  | quoted (mark : Char) (body : List Char) :
    Derives markup (.expr (.literal (.text (String.ofList body)))) [.quoted mark body]
  | number {negative : Bool} {whole : List Char} {fraction : Option (List Char)} {v : Value} :
    numberValue negative whole fraction = .ok v →
    Derives markup (.expr (.literal v)) [.number negative whole fraction]
  | keyword {chars : List Char} {v : Value} : keyword? (String.ofList chars) = some v →
    Derives markup (.expr (.literal v)) [.name chars]
  | range {start stop : Expr} {ls ms : List Lexeme} :
    Derives markup (.expr start) ls → Derives markup (.expr stop) ms →
    Derives markup (.expr (.range start stop))
      (.openParen :: (ls ++ .dots :: (ms ++ [.closeParen])))
  | named {chars : List Char} {path : List Key} {ls : List Lexeme} :
    (path = [] → keyword? (String.ofList chars) = none) → Derives markup (.path path) ls →
    Derives markup (.expr (.lookup (.name (String.ofList chars)) path markup)) (.name chars :: ls)
  | computed {root : Expr} {path : List Key} {ls ms : List Lexeme} :
    Derives markup (.expr root) ls → Derives markup (.path path) ms →
    Derives markup (.expr (.lookup (.computed root) path markup))
      (.openBracket :: (ls ++ .closeBracket :: ms))
  | done : Derives markup (.path []) []
  | member {chars : List Char} {path : List Key} {ls : List Lexeme} :
    Derives markup (.path path) ls →
    Derives markup (.path (.name (String.ofList chars) :: path)) (.dot :: .name chars :: ls)
  | index {e : Expr} {path : List Key} {ls ms : List Lexeme} :
    Derives markup (.expr e) ls → Derives markup (.path path) ms →
    Derives markup (.path (.computed e :: path)) (.openBracket :: (ls ++ .closeBracket :: ms))

section

variable {markup : String}

/-! ## Lexemes of a derivation -/

theorem apart_of_punctuation {l next : Lexeme} (hl : l ≠ .dot)
    (hnext : next ∈ [.dots, .closeBracket, .closeParen]) : Apart l next := by
  intro rest
  simp only [List.mem_cons, List.not_mem_nil, or_false] at hnext
  cases l with
  | number negative whole fraction =>
    have hdigit : Halts isDigit (next.chars ++ rest) := by
      rcases hnext with rfl | rfl | rfl <;> (rintro c ⟨⟩; decide +kernel)
    cases fraction with
    | none =>
      refine ⟨hdigit, ?_⟩
      rcases hnext with rfl | rfl | rfl
      · rintro c more ⟨⟩
        decide +kernel
      · rintro c more ⟨⟩
      · rintro c more ⟨⟩
    | some digits => exact hdigit
  | name chars => rcases hnext with rfl | rfl | rfl <;> (rintro c ⟨⟩; decide +kernel)
  | dot => exact absurd rfl hl
  | _ => trivial

theorem apart_name {chars : List Char} {next : Lexeme} (hnext : next ∈ [.dot, .openBracket]) :
    Apart (.name chars) next := by
  intro rest
  simp only [List.mem_cons, List.not_mem_nil, or_false] at hnext
  rcases hnext with rfl | rfl <;> (rintro c ⟨⟩; decide +kernel)

theorem apart_dot {chars : List Char} (h : IsName chars) : Apart .dot (.name chars) := by
  have hstart : isNameStart '.' = false := by decide
  rintro rest d hd
  obtain ⟨c, stem, hc, -, rfl | rfl⟩ := h
  all_goals
    cases hd
    rw [beq_eq_false_iff_ne]
    rintro rfl
    simp [hstart] at hc

theorem Derives.path_head? {path : List Key} {ls : List Lexeme}
    (h : Derives markup (.path path) ls) : ∀ l ∈ ls.head?, l ∈ [.dot, .openBracket] := by
  cases h with
  | done => nofun
  | member hpath =>
    rintro l ⟨⟩
    simp
  | index he hpath =>
    rintro l ⟨⟩
    simp

/-- No lexeme of a derivation runs on into the next, and the last is no dot. -/
def Separate (ls : List Lexeme) : Prop := ls.IsChain Apart ∧ ∀ l ∈ ls.getLast?, l ≠ .dot

theorem Separate.append_cons {ls ms : List Lexeme} {l : Lexeme}
    (hl : l ∈ [.dots, .closeBracket, .closeParen]) (hls : Separate ls) (hms : Separate (l :: ms)) :
    Separate (ls ++ l :: ms) := by
  refine ⟨List.isChain_append.mpr ⟨hls.1, hms.1, ?_⟩, ?_⟩
  · rintro m hm n ⟨⟩
    exact apart_of_punctuation (hls.2 m hm) hl
  · rw [List.getLast?_append_of_ne_nil _ (List.cons_ne_nil l ms)]
    exact hms.2

theorem Separate.cons {ls : List Lexeme} {l : Lexeme} (hl : l ≠ .dot)
    (hapart : ∀ next ∈ ls.head?, Apart l next) (hls : Separate ls) : Separate (l :: ls) := by
  refine ⟨List.isChain_cons.mpr ⟨hapart, hls.1⟩, ?_⟩
  cases ls with
  | nil =>
    rintro m ⟨⟩
    exact hl
  | cons next more =>
    rw [List.getLast?_cons_cons]
    exact hls.2

theorem separate_singleton {l : Lexeme} (hl : l ≠ .dot) : Separate [l] :=
  ⟨.singleton l, fun m hm => by
    cases hm
    exact hl⟩

theorem Separate.cons_mark {ls : List Lexeme} {l : Lexeme}
    (hl : l ∈ [.openParen, .openBracket, .closeBracket, .dots]) (hls : Separate ls) :
    Separate (l :: ls) := by
  simp only [List.mem_cons, List.not_mem_nil, or_false] at hl
  rcases hl with rfl | rfl | rfl | rfl <;> exact hls.cons (by simp) fun _ _ _ => trivial

theorem Separate.bracketed {ls ms : List Lexeme} (hls : Separate ls) (hms : Separate ms) :
    Separate (.openBracket :: (ls ++ .closeBracket :: ms)) :=
  (hls.append_cons (by simp) (hms.cons_mark (by simp))).cons_mark (by simp)

theorem Derives.separate {phrase : Phrase} {ls : List Lexeme} (h : Derives markup phrase ls)
    (hwhole : ∀ l ∈ ls, l.IsWhole) : Separate ls := by
  induction h with
  | quoted mark body => exact separate_singleton nofun
  | number hv => exact separate_singleton nofun
  | keyword hkeyword => exact separate_singleton nofun
  | range hstart hstop ihstart ihstop =>
    have hfirst := ihstart fun l hl => hwhole l (by simp [hl])
    have hsecond := ihstop fun l hl => hwhole l (by simp [hl])
    have hend : Separate [.closeParen] := separate_singleton nofun
    have hdots := (hsecond.append_cons (by simp) hend).cons_mark (l := .dots) (by simp)
    exact (hfirst.append_cons (by simp) hdots).cons_mark (by simp)
  | named hkeyword hpath ih =>
    have hafter := ih fun l hl => hwhole l (by simp [hl])
    exact hafter.cons nofun fun next hnext => apart_name (hpath.path_head? next hnext)
  | computed hroot hpath ihroot ihpath =>
    have hinner := ihroot fun l hl => hwhole l (by simp [hl])
    exact hinner.bracketed (ihpath fun l hl => hwhole l (by simp [hl]))
  | done => exact ⟨.nil, nofun⟩
  | @member chars path ls hpath ih =>
    have hafter := ih fun l hl => hwhole l (by simp [hl])
    have hname := hafter.cons (l := .name chars) nofun fun next hnext =>
      apart_name (hpath.path_head? next hnext)
    refine ⟨List.isChain_cons_cons.mpr ⟨apart_dot (hwhole (.name chars) (by simp)), hname.1⟩, ?_⟩
    rw [List.getLast?_cons_cons]
    exact hname.2
  | index he hpath ihe ihpath =>
    have hinner := ihe fun l hl => hwhole l (by simp [hl])
    exact hinner.bracketed (ihpath fun l hl => hwhole l (by simp [hl]))

/-! ## Reading -/

/-- The reader takes an expression from the lexemes and leaves the rest. -/
def ReadsOne (markup : String) (ts : List Lexeme) (e : Expr) (rest : List Lexeme) : Prop :=
  ∃ h, readOne markup ts = .ok (e, ⟨rest, h⟩)

def ReadsPath (markup : String) (ts : List Lexeme) (path : List Key) (rest : List Lexeme) : Prop :=
  ∃ h, readPath markup ts = .ok (path, ⟨rest, h⟩)

theorem expect_cons (wanted : Lexeme) (rest : List Lexeme) :
    expect wanted (wanted :: rest) = .ok ⟨rest, Nat.lt_succ_self _⟩ := if_pos rfl

theorem eq_of_expect {wanted : Lexeme} {ts : List Lexeme} {r : Rest ts}
    (h : expect wanted ts = .ok r) : ts = wanted :: r.1 := by
  unfold expect at h
  split at h
  · cases h
  · split at h
    · next heq =>
      cases h
      rw [heq]
    · cases h

theorem eq_of_expectDots {ts : List Lexeme} {r : Rest ts}
    (h : expectDots ts = .ok r) : ts = .dots :: r.1 := by
  unfold expectDots at h
  split at h
  · cases h
  · split at h
    · next heq =>
      cases h
      rw [heq]
    · cases h

theorem ReadsOne.quoted (mark : Char) (body : List Char) (rest : List Lexeme) :
    ReadsOne markup (.quoted mark body :: rest) (.literal (.text (String.ofList body))) rest := by
  refine ⟨Nat.lt_succ_self _, ?_⟩
  rw [readOne]

theorem ReadsOne.number {negative : Bool} {whole : List Char} {fraction : Option (List Char)}
    {v : Value} (hv : numberValue negative whole fraction = .ok v) (rest : List Lexeme) :
    ReadsOne markup (.number negative whole fraction :: rest) (.literal v) rest := by
  refine ⟨Nat.lt_succ_self _, ?_⟩
  rw [readOne, hv]

theorem ReadsOne.range {ts ms rest : List Lexeme} {start stop : Expr}
    (hstart : ReadsOne markup ts start (.dots :: ms))
    (hstop : ReadsOne markup ms stop (.closeParen :: rest)) :
    ReadsOne markup (.openParen :: ts) (.range start stop) rest := by
  obtain ⟨h1, hstart⟩ := hstart
  obtain ⟨h2, hstop⟩ := hstop
  have hlt : rest.length < (Lexeme.openParen :: ts).length := by
    simp only [List.length_cons] at h1 h2 ⊢
    omega
  refine ⟨hlt, ?_⟩
  rw [readOne, hstart]
  simp [bind, Except.bind, expectDots, hstop, expect_cons, pure, Except.pure]

theorem ReadsOne.name {chars : List Char} {ts rest : List Lexeme} {path : List Key}
    (hpath : ReadsPath markup ts path rest) :
    ReadsOne markup (.name chars :: ts) (ofName markup (String.ofList chars) path) rest := by
  obtain ⟨h, hpath⟩ := hpath
  refine ⟨Nat.lt_succ_of_le h, ?_⟩
  rw [readOne, hpath]
  rfl

theorem ReadsOne.computed {ts ms rest : List Lexeme} {root : Expr} {path : List Key}
    (hroot : ReadsOne markup ts root (.closeBracket :: ms))
    (hpath : ReadsPath markup ms path rest) :
    ReadsOne markup (.openBracket :: ts) (.lookup (.computed root) path markup) rest := by
  obtain ⟨h1, hroot⟩ := hroot
  obtain ⟨h2, hpath⟩ := hpath
  have hlt : rest.length < (Lexeme.openBracket :: ts).length := by
    simp only [List.length_cons] at h1 ⊢
    omega
  refine ⟨hlt, ?_⟩
  rw [readOne, hroot]
  simp [bind, Except.bind, hpath, expect_cons, pure, Except.pure]

theorem ReadsPath.member {chars : List Char} {ts rest : List Lexeme} {path : List Key}
    (hpath : ReadsPath markup ts path rest) :
    ReadsPath markup (.dot :: .name chars :: ts) (.name (String.ofList chars) :: path) rest := by
  obtain ⟨h, hpath⟩ := hpath
  have hle : rest.length ≤ (Lexeme.dot :: .name chars :: ts).length := by
    simp only [List.length_cons]
    omega
  refine ⟨hle, ?_⟩
  rw [readPath, hpath]
  rfl

theorem ReadsPath.index {ts ms rest : List Lexeme} {e : Expr} {path : List Key}
    (he : ReadsOne markup ts e (.closeBracket :: ms)) (hpath : ReadsPath markup ms path rest) :
    ReadsPath markup (.openBracket :: ts) (.computed e :: path) rest := by
  obtain ⟨h1, he⟩ := he
  obtain ⟨h2, hpath⟩ := hpath
  have hle : rest.length ≤ (Lexeme.openBracket :: ts).length := by
    simp only [List.length_cons] at h1 ⊢
    omega
  refine ⟨hle, ?_⟩
  rw [readPath, he]
  simp [bind, Except.bind, hpath, expect_cons, pure, Except.pure]

/-- No path goes on with these lexemes. -/
def Stops (rest : List Lexeme) : Prop := ∀ l ∈ rest.head?, l ≠ .dot ∧ l ≠ .openBracket

theorem ReadsPath.done {rest : List Lexeme} (h : Stops rest) : ReadsPath markup rest [] rest := by
  refine ⟨Nat.le_refl _, ?_⟩
  rw [readPath.eq_def]
  split
  · exact absurd rfl (h .dot rfl).1
  · exact absurd rfl (h .dot rfl).1
  · exact absurd rfl (h .dot rfl).1
  · exact absurd rfl (h .openBracket rfl).2
  · rfl

theorem stops_cons {l : Lexeme} (hl : l ∈ [.dots, .closeBracket, .closeParen])
    (rest : List Lexeme) : Stops (l :: rest) := by
  simp only [List.mem_cons, List.not_mem_nil, or_false] at hl
  rintro m ⟨⟩
  rcases hl with rfl | rfl | rfl <;> simp

theorem stops_or_exists (ts : List Lexeme) :
    Stops ts ∨ (∃ rest, ts = .dot :: rest) ∨ ∃ rest, ts = .openBracket :: rest := by
  cases ts with
  | nil => exact .inl nofun
  | cons l rest =>
    by_cases hdot : l = .dot
    · exact .inr (.inl ⟨rest, by rw [hdot]⟩)
    · by_cases hbracket : l = .openBracket
      · exact .inr (.inr ⟨rest, by rw [hbracket]⟩)
      · refine .inl ?_
        rintro m ⟨⟩
        exact ⟨hdot, hbracket⟩

/-- The reader takes the phrase from the lexemes and leaves the rest. -/
def Reads (markup : String) (ts : List Lexeme) : Phrase → List Lexeme → Prop
  | .expr e, rest => ReadsOne markup ts e rest
  | .path path, rest => ReadsPath markup ts path rest

theorem Derives.reads {phrase : Phrase} {ls : List Lexeme} (h : Derives markup phrase ls)
    {rest : List Lexeme} (hrest : Stops rest) : Reads markup (ls ++ rest) phrase rest := by
  induction h generalizing rest with
  | quoted mark body => exact .quoted mark body rest
  | number hv => exact .number hv rest
  | @keyword chars v hkeyword =>
    have hdone : ReadsPath markup rest [] rest := .done hrest
    have hname : ReadsOne markup (.name chars :: rest) _ rest := .name hdone
    simp only [ofName, hkeyword] at hname
    exact hname
  | range hstart hstop ihstart ihstop =>
    have hsecond := ihstop (stops_cons (l := .closeParen) (by simp) rest)
    have hread := ReadsOne.range (ihstart (stops_cons (by simp) _)) hsecond
    simpa [Reads] using hread
  | @named chars path ls hkeyword hpath ih =>
    have hname : ReadsOne markup (.name chars :: (ls ++ rest)) _ rest := .name (ih hrest)
    have hlookup : ofName markup (String.ofList chars) path =
        .lookup (.name (String.ofList chars)) path markup := by
      unfold ofName
      split
      · next v hv => simp [hkeyword rfl] at hv
      · rfl
    rwa [hlookup] at hname
  | computed hroot hpath ihroot ihpath =>
    have hread := ReadsOne.computed (ihroot (stops_cons (by simp) _)) (ihpath hrest)
    simpa [Reads] using hread
  | done => exact .done hrest
  | member hpath ih => exact .member (ih hrest)
  | index he hpath ihe ihpath =>
    have hread := ReadsPath.index (ihe (stops_cons (by simp) _)) (ihpath hrest)
    simpa [Reads] using hread

/-! ## What was read -/

theorem Derives.ofName {path : List Key} {ls : List Lexeme} (h : Derives markup (.path path) ls)
    (chars : List Char) :
    Derives markup (.expr (Expr.ofName markup (String.ofList chars) path)) (.name chars :: ls) := by
  unfold Expr.ofName
  split
  · next v hv =>
    cases h
    exact .keyword hv
  · next hnone =>
    exact .named (fun hpath => Option.eq_none_iff_forall_ne_some.mpr (hnone · hpath)) h

section

variable {ts rest : List Lexeme} {e : Expr} {path : List Key}

theorem ReadsOne.length_lt (h : ReadsOne markup ts e rest) : rest.length < ts.length := h.1

theorem exists_of_readsOne_paren (h : ReadsOne markup (.openParen :: ts) e rest) :
    ∃ start ms stop, ReadsOne markup ts start (.dots :: ms) ∧
      ReadsOne markup ms stop (.closeParen :: rest) ∧ e = .range start stop := by
  obtain ⟨_, h⟩ := h
  rw [readOne] at h
  obtain ⟨⟨start, r1, h1⟩, hstart, h⟩ := exists_of_bind_eq_ok h
  obtain ⟨⟨r2, h2⟩, hdots, h⟩ := exists_of_bind_eq_ok h
  obtain ⟨⟨stop, r3, h3⟩, hstop, h⟩ := exists_of_bind_eq_ok h
  obtain ⟨⟨r4, h4⟩, hclose, h⟩ := exists_of_bind_eq_ok h
  cases h
  obtain rfl : r1 = .dots :: r2 := eq_of_expectDots hdots
  obtain rfl : r3 = .closeParen :: rest := eq_of_expect hclose
  exact ⟨start, r2, stop, ⟨h1, hstart⟩, ⟨h3, hstop⟩, rfl⟩

theorem exists_of_readsOne_name {chars : List Char}
    (h : ReadsOne markup (.name chars :: ts) e rest) :
    ∃ path, ReadsPath markup ts path rest ∧ e = Expr.ofName markup (String.ofList chars) path := by
  obtain ⟨_, h⟩ := h
  rw [readOne] at h
  obtain ⟨⟨path, r, hle⟩, hpath, h⟩ := exists_of_bind_eq_ok h
  cases h
  exact ⟨path, ⟨hle, hpath⟩, rfl⟩

theorem exists_of_readsOne_bracket (h : ReadsOne markup (.openBracket :: ts) e rest) :
    ∃ root ms path, ReadsOne markup ts root (.closeBracket :: ms) ∧
      ReadsPath markup ms path rest ∧ e = .lookup (.computed root) path markup := by
  obtain ⟨_, h⟩ := h
  rw [readOne] at h
  obtain ⟨⟨root, r1, h1⟩, hroot, h⟩ := exists_of_bind_eq_ok h
  obtain ⟨⟨r2, h2⟩, hclose, h⟩ := exists_of_bind_eq_ok h
  obtain ⟨⟨path, r3, h3⟩, hpath, h⟩ := exists_of_bind_eq_ok h
  cases h
  obtain rfl : r1 = .closeBracket :: r2 := eq_of_expect hclose
  exact ⟨root, r2, path, ⟨h1, hroot⟩, ⟨h3, hpath⟩, rfl⟩

theorem exists_of_readsPath_dot (h : ReadsPath markup (.dot :: ts) path rest) :
    ∃ chars ms tail, ts = .name chars :: ms ∧ ReadsPath markup ms tail rest ∧
      path = .name (String.ofList chars) :: tail := by
  obtain ⟨_, h⟩ := h
  cases ts with
  | nil => simp [readPath] at h
  | cons t ms =>
    cases t with
    | name chars =>
      rw [readPath] at h
      obtain ⟨⟨tail, r, hle⟩, hpath, h⟩ := exists_of_bind_eq_ok h
      cases h
      exact ⟨chars, ms, tail, rfl, ⟨hle, hpath⟩, rfl⟩
    | _ => simp [readPath] at h

theorem exists_of_readsPath_bracket (h : ReadsPath markup (.openBracket :: ts) path rest) :
    ∃ e ms tail, ReadsOne markup ts e (.closeBracket :: ms) ∧ ReadsPath markup ms tail rest ∧
      path = .computed e :: tail := by
  obtain ⟨_, h⟩ := h
  rw [readPath] at h
  obtain ⟨⟨e, r1, h1⟩, he, h⟩ := exists_of_bind_eq_ok h
  obtain ⟨⟨r2, h2⟩, hclose, h⟩ := exists_of_bind_eq_ok h
  obtain ⟨⟨tail, r3, h3⟩, hpath, h⟩ := exists_of_bind_eq_ok h
  cases h
  obtain rfl : r1 = .closeBracket :: r2 := eq_of_expect hclose
  exact ⟨e, r2, tail, ⟨h1, he⟩, ⟨h3, hpath⟩, rfl⟩

theorem eq_of_readsPath_of_stops (hstops : Stops ts) (h : ReadsPath markup ts path rest) :
    path = [] ∧ ts = rest := by
  obtain ⟨_, h⟩ := h
  obtain ⟨_, hdone⟩ : ReadsPath markup ts [] ts := .done hstops
  rw [hdone] at h
  cases h
  exact ⟨rfl, rfl⟩

end

mutual

theorem derives_of_readsOne {ts rest : List Lexeme} {e : Expr} (h : ReadsOne markup ts e rest) :
    ∃ ls, ts = ls ++ rest ∧ Derives markup (.expr e) ls := by
  match ts, h with
  | .quoted mark body :: ts, ⟨_, h⟩ =>
    rw [readOne] at h
    cases h
    exact ⟨_, rfl, .quoted mark body⟩
  | .number negative whole fraction :: ts, ⟨_, h⟩ =>
    rw [readOne] at h
    split at h
    · next v hv =>
      cases h
      exact ⟨_, rfl, .number hv⟩
    · cases h
  | .openParen :: ts, h =>
    obtain ⟨start, ms, stop, hstart, hstop, rfl⟩ := exists_of_readsOne_paren h
    have hlt := hstart.length_lt
    obtain ⟨ls, hts, hls⟩ := derives_of_readsOne hstart
    obtain ⟨ls', hms, hls'⟩ := derives_of_readsOne hstop
    exact ⟨_, by simp [hts, hms], .range hls hls'⟩
  | .name chars :: ts, h =>
    obtain ⟨path, hpath, rfl⟩ := exists_of_readsOne_name h
    obtain ⟨ls, hts, hls⟩ := derives_of_readsPath hpath
    exact ⟨_, by simp [hts], hls.ofName chars⟩
  | .openBracket :: ts, h =>
    obtain ⟨root, ms, path, hroot, hpath, rfl⟩ := exists_of_readsOne_bracket h
    have hlt := hroot.length_lt
    obtain ⟨ls, hts, hls⟩ := derives_of_readsOne hroot
    obtain ⟨ls', hms, hls'⟩ := derives_of_readsPath hpath
    exact ⟨_, by simp [hts, hms], .computed hls hls'⟩
  | [], ⟨_, h⟩ => simp [readOne] at h
  | .dots :: ts, ⟨_, h⟩ => simp [readOne] at h
  | .dot :: ts, ⟨_, h⟩ => simp [readOne] at h
  | .closeBracket :: ts, ⟨_, h⟩ => simp [readOne] at h
  | .closeParen :: ts, ⟨_, h⟩ => simp [readOne] at h
  termination_by ts.length
  decreasing_by all_goals (simp only [List.length_cons] at *; omega)

theorem derives_of_readsPath {ts rest : List Lexeme} {path : List Key}
    (h : ReadsPath markup ts path rest) :
    ∃ ls, ts = ls ++ rest ∧ Derives markup (.path path) ls := by
  rcases stops_or_exists ts with hstops | ⟨us, hts⟩ | ⟨us, hts⟩
  · obtain ⟨rfl, hts⟩ := eq_of_readsPath_of_stops hstops h
    exact ⟨[], hts, .done⟩
  · obtain ⟨chars, ms, tail, hus, hpath, rfl⟩ := exists_of_readsPath_dot (hts ▸ h)
    have hlt := congrArg List.length hts
    have hlt' := congrArg List.length hus
    obtain ⟨ls, hms, hls⟩ := derives_of_readsPath hpath
    exact ⟨_, by simp [hts, hus, hms], .member hls⟩
  · obtain ⟨e, ms, tail, he, hpath, rfl⟩ := exists_of_readsPath_bracket (hts ▸ h)
    have hlt := congrArg List.length hts
    have hlt' := he.length_lt
    obtain ⟨ls, hus, hls⟩ := derives_of_readsOne he
    obtain ⟨ls', hms, hls'⟩ := derives_of_readsPath hpath
    exact ⟨_, by simp [hts, hus, hms], .index hls hls'⟩
  termination_by ts.length
  decreasing_by all_goals (simp only [List.length_cons] at *; omega)

end

/-! ## Markups -/

theorem Derives.ne_nil {e : Expr} {ls : List Lexeme} (h : Derives markup (.expr e) ls) :
    ls ≠ [] := by
  cases h <;> exact List.cons_ne_nil _ _

theorem ofLexemes_eq_ok_iff {ls : List Lexeme} {e : Expr} :
    ofLexemes markup ls = .ok e ↔ ls = [] ∧ e = .literal .nil ∨ Derives markup (.expr e) ls := by
  constructor
  · intro h
    unfold ofLexemes at h
    split at h
    · cases h
      exact .inl ⟨rfl, rfl⟩
    · obtain ⟨⟨e', rest, hlt⟩, hread, h⟩ := exists_of_bind_eq_ok h
      dsimp only at h
      split at h
      · cases h
        obtain ⟨ls', rfl, hls⟩ := derives_of_readsOne ⟨hlt, hread⟩
        rw [List.append_nil]
        exact .inr hls
      · cases h
  · rintro (⟨rfl, rfl⟩ | h)
    · rfl
    · have hne := h.ne_nil
      have hreads : ReadsOne markup (ls ++ []) e [] := h.reads nofun
      rw [List.append_nil] at hreads
      obtain ⟨hlt, hread⟩ := hreads
      unfold ofLexemes
      split
      · contradiction
      · rw [hread]
        rfl

end

theorem parse_eq_ok_iff {cs : List Char} {e : Expr} :
    parse cs = .ok e ↔
      ∃ ls, Lexeme.all (trim cs) = .ok ls ∧ ofLexemes (String.ofList (trim cs)) ls = .ok e := by
  unfold parse
  dsimp only
  cases hall : Lexeme.all (trim cs) <;> simp

theorem parse_of_derives {cs : List Char} {e : Expr} {ls : List Lexeme} (hspaced : Spaced ls cs)
    (hwhole : ∀ l ∈ ls, l.IsWhole) (h : Derives (String.ofList (trim cs)) (.expr e) ls) :
    parse cs = .ok e := by
  have hall : Lexeme.all (trim cs) = .ok ls :=
    all_of_spaced ((spaced_trim hwhole).mpr hspaced) hwhole (h.separate hwhole).1
  exact parse_eq_ok_iff.mpr ⟨ls, hall, ofLexemes_eq_ok_iff.mpr (.inr h)⟩

end Stencil.Expr
