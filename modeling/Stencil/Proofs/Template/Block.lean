import Mathlib.Tactic.SplitIfs
import Stencil.Proofs.Expr.Visit
import Stencil.Template.Reading

/-!
# What tags do to blocks

Every way in which a tag of the library starts a node or a block, and every way in which one ends a
body of a block.
-/

namespace Stencil

open Markup

/-! ## Ends of bodies -/

def Block.isLiteral : Block → Bool
  | .literal .. => true
  | _ => false

/-- How a tag ends a body of a block that was opened on a line. -/
inductive Block.Ends (line : Nat) (body : List Node) :
    Block → String → List Char → BodyEnd → Prop
  | lastBranch {isNegated : Bool} {earlier : List (Chain × List Node)} {condition : Chain}
    {markup : List Char} :
    Ends line body (.branches isNegated earlier condition) (conditionalEnd isNegated) markup
      (.closed (.conditional line isNegated (earlier ++ [(condition, body)]) []))
  | elseBranch {isNegated : Bool} {earlier : List (Chain × List Node)} {condition : Chain}
    {markup : List Char} :
    Ends line body (.branches isNegated earlier condition) "else" markup
      (.continued (.otherwise isNegated (earlier ++ [(condition, body)])))
  | elsifBranch {isNegated : Bool} {earlier : List (Chain × List Node)} {condition next : Chain}
    {markup : List Char} : Chain.parse markup = .ok next →
    Ends line body (.branches isNegated earlier condition) "elsif" markup
      (.continued (.branches isNegated (earlier ++ [(condition, body)]) next))
  | otherwise {isNegated : Bool} {conditions : List (Chain × List Node)} {markup : List Char} :
    Ends line body (.otherwise isNegated conditions) (conditionalEnd isNegated) markup
      (.closed (.conditional line isNegated conditions body))
  | loop {loop : LoopMarkup} {head : LoopHead} {markup : List Char} : loop.parse = .ok head →
    Ends line body (.loop loop) "endfor" markup (.closed (.loop line head body []))
  | loopElse {loop : LoopMarkup} {markup : List Char} :
    Ends line body (.loop loop) "else" markup (.continued (.loopOtherwise loop body))
  | loopOtherwise {loop : LoopMarkup} {main : List Node} {head : LoopHead} {markup : List Char} :
    loop.parse = .ok head →
    Ends line body (.loopOtherwise loop main) "endfor" markup (.closed (.loop line head main body))
  | ifChanged {markup : List Char} :
    Ends line body .ifChanged "endifchanged" markup (.closed (.ifChanged line body))

section

variable {line : Nat} {body : List Node} {block : Block} {name : String} {markup : List Char}
  {ending : BodyEnd}

theorem closeLoop_eq_ok {loop : LoopMarkup} {main otherwise : List Node} :
    closeLoop line loop main otherwise = .ok ending ↔
      ∃ head, loop.parse = .ok head ∧ ending = .closed (.loop line head main otherwise) := by
  unfold closeLoop
  cases loop.parse with
  | error fault => exact ⟨nofun, nofun⟩
  | ok head =>
    constructor
    · rintro ⟨⟩
      exact ⟨head, rfl, rfl⟩
    · rintro ⟨_, ⟨⟩, rfl⟩
      rfl

theorem Block.Ends.end?_eq (h : Ends line body block name markup ending) :
    block.end? line body name markup = some (.ok ending) := by
  cases h with
  | lastBranch => exact if_pos rfl
  | @elseBranch isNegated => cases isNegated <;> rfl
  | @elsifBranch isNegated _ _ _ _ h =>
    cases isNegated <;> simp [Block.end?, conditionalEnd, h, Except.map]
  | otherwise => exact if_pos rfl
  | loop h => exact congrArg some (closeLoop_eq_ok.mpr ⟨_, h, rfl⟩)
  | loopElse => rfl
  | loopOtherwise h => exact congrArg some (closeLoop_eq_ok.mpr ⟨_, h, rfl⟩)
  | ifChanged => rfl

theorem Block.ends_of_end?_eq (h : block.end? line body name markup = some (.ok ending)) :
    Ends line body block name markup ending := by
  cases block with
  | branches isNegated earlier condition =>
    simp only [Block.end?] at h
    split_ifs at h with hend helse helsif
    · cases h
      exact hend ▸ .lastBranch
    · cases h
      exact helse ▸ .elseBranch
    · subst helsif
      cases hnext : Chain.parse markup with
      | error fault => simp [hnext, Except.map] at h
      | ok next =>
        rw [hnext] at h
        cases h
        exact .elsifBranch hnext
  | otherwise isNegated conditions =>
    simp only [Block.end?] at h
    split_ifs at h with hend
    cases h
    exact hend ▸ .otherwise
  | loop loop =>
    simp only [Block.end?] at h
    split_ifs at h with hend helse
    · obtain ⟨head, hhead, rfl⟩ := closeLoop_eq_ok.mp (Option.some.inj h)
      exact hend ▸ .loop hhead
    · cases h
      exact helse ▸ .loopElse
  | loopOtherwise loop main =>
    simp only [Block.end?] at h
    split_ifs at h with hend
    obtain ⟨head, hhead, rfl⟩ := closeLoop_eq_ok.mp (Option.some.inj h)
    exact hend ▸ .loopOtherwise hhead
  | ifChanged =>
    simp only [Block.end?] at h
    split_ifs at h with hend
    cases h
    exact hend ▸ .ifChanged
  | literal isComment body => contradiction

def endNames : List String := ["endif", "endunless", "else", "elsif", "endfor", "endifchanged"]

theorem Block.end?_eq_none (h : name ∉ endNames) (block : Block) (line : Nat) (body : List Node)
    (markup : List Char) : block.end? line body name markup = none := by
  simp only [endNames, List.mem_cons, List.not_mem_nil, or_false, not_or] at h
  obtain ⟨hif, hunless, helse, helsif, hfor, hchanged⟩ := h
  cases block with
  | branches isNegated => cases isNegated <;> simp [Block.end?, conditionalEnd, *]
  | otherwise isNegated => cases isNegated <;> simp [Block.end?, conditionalEnd, *]
  | _ => simp [Block.end?, *]

end

/-! ## Starts of tags -/

def conditionalStart (isNegated : Bool) : String := if isNegated then "unless" else "if"

def literalStart (isComment : Bool) : String := if isComment then "comment" else "raw"

/-- What a tag of the library starts on a line. -/
inductive TagStart.Starts (line : Nat) : String → List Char → TagStart → Prop
  | assign {markup : List Char} {assignment : Assignment} :
    Assignment.parse markup = .ok assignment →
    Starts line "assign" markup (.node (.assign line assignment))
  | inclusion {markup : List Char} {inclusion : Inclusion} :
    Inclusion.parse "include" markup = .ok inclusion →
    Starts line "include" markup (.node (.inclusion line inclusion))
  | conditional {isNegated : Bool} {markup : List Char} {condition : Chain} :
    Chain.parse markup = .ok condition →
    Starts line (conditionalStart isNegated) markup (.block (.branches isNegated [] condition))
  | loop {markup : List Char} {loop : LoopMarkup} : LoopMarkup.split? markup = some loop →
    Starts line "for" markup (.block (.loop loop))
  | ifChanged {markup : List Char} : Starts line "ifchanged" markup (.block .ifChanged)
  | literal {isComment : Bool} :
    Starts line (literalStart isComment) [] (.block (.literal isComment []))

section

variable {line : Nat} {name : String} {markup : List Char} {start : TagStart}

theorem TagStart.Starts.start_eq (h : Starts line name markup start) :
    ∃ kind, TagTable.default.get? name = some kind ∧ kind.start line name markup = .ok start := by
  cases h with
  | assign h =>
    refine ⟨.assign, rfl, ?_⟩
    rw [TagKind.start, h]
    rfl
  | inclusion h =>
    refine ⟨.inclusion, rfl, ?_⟩
    rw [TagKind.start, h]
    rfl
  | @conditional isNegated _ _ h =>
    refine ⟨if isNegated then .unless else .conditional, by cases isNegated <;> rfl, ?_⟩
    cases isNegated <;> (simp only [TagKind.start, h]; rfl)
  | loop h =>
    refine ⟨.loop, rfl, ?_⟩
    rw [TagKind.start, h]
  | ifChanged => exact ⟨.ifChanged, rfl, rfl⟩
  | @literal isComment =>
    refine ⟨if isComment then .comment else .raw, ?_, ?_⟩ <;> cases isComment <;> rfl

theorem TagStart.starts_literal (isComment : Bool)
    (h : startLiteral isComment (literalStart isComment) markup = .ok start) :
    Starts line (literalStart isComment) markup start := by
  unfold startLiteral at h
  split_ifs at h with hmarkup
  cases h
  subst hmarkup
  exact .literal

theorem TagStart.starts_of_start_eq {kind : TagKind}
    (hkind : TagTable.default.get? name = some kind)
    (h : kind.start line name markup = .ok start) : Starts line name markup start := by
  have hmem : (name, kind) ∈ TagTable.default := by
    obtain ⟨first, rest, htable, -⟩ := List.lookup_eq_some_iff.mp hkind
    rw [htable]
    exact List.mem_append_right _ List.mem_cons_self
  simp only [TagTable.default, List.mem_cons, List.not_mem_nil, or_false, Prod.mk.injEq] at hmem
  rcases hmem with ⟨rfl, rfl⟩ | ⟨rfl, rfl⟩ | ⟨rfl, rfl⟩ | ⟨rfl, rfl⟩ | ⟨rfl, rfl⟩ | ⟨rfl, rfl⟩ |
    ⟨rfl, rfl⟩ | ⟨rfl, rfl⟩
  · obtain ⟨assignment, hmarkup, hstart⟩ := exists_of_bind_eq_ok h
    cases hstart
    exact .assign hmarkup
  · exact starts_literal true h
  · simp only [TagKind.start] at h
    split at h
    · next hsplit =>
      cases h
      exact .loop hsplit
    · cases h
  · obtain ⟨condition, hcondition, hstart⟩ := exists_of_bind_eq_ok h
    cases hstart
    exact @Starts.conditional line false _ _ hcondition
  · cases h
    exact .ifChanged
  · obtain ⟨inclusion, hmarkup, hstart⟩ := exists_of_bind_eq_ok h
    cases hstart
    exact .inclusion hmarkup
  · exact starts_literal false h
  · obtain ⟨condition, hcondition, hstart⟩ := exists_of_bind_eq_ok h
    cases hstart
    exact @Starts.conditional line true _ _ hcondition

theorem TagStart.Starts.not_mem_endNames (h : Starts line name markup start) :
    name ∉ endNames := by
  cases h with
  | @conditional isNegated => cases isNegated <;> decide
  | @literal isComment => cases isComment <;> decide
  | _ => decide

end

end Stencil
