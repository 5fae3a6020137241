import Stencil.Proofs.Render.Closure

/-!
# Blank templates

A node that is blank by its form writes blank characters in every session, and does no more to the
session than that and an assignment: it finds no partial and remembers no text.
-/

namespace Stencil

/-- Nothing but the frames differs and blank characters at the end of the text. -/
def Session.OnlyBlanks (s s' : Session) : Prop :=
  ∃ scope blanks, Text.allBlank blanks ∧
    s' = { s with scope := scope, output := s.output ++ blanks }

namespace Render

open Session

/-! ## Blank texts -/

theorem allBlank_empty : Text.allBlank "" := rfl

theorem allBlank_append {text text' : String} (h : Text.allBlank text) (h' : Text.allBlank text') :
    Text.allBlank (text ++ text') := by
  unfold Text.allBlank at h h' ⊢
  rw [String.toList_append, List.all_append, h, h']
  rfl

/-! ## Steps that write only blanks -/

theorem onlyBlanks_refl (s : Session) : OnlyBlanks s s :=
  ⟨s.scope, "", allBlank_empty, by rw [String.append_empty]⟩

theorem onlyBlanks_trans ⦃s s' s'' : Session⦄ (h : OnlyBlanks s s') (h' : OnlyBlanks s' s'') :
    OnlyBlanks s s'' := by
  obtain ⟨_, blanks, hblanks, rfl⟩ := h
  obtain ⟨scope, blanks', hblanks', rfl⟩ := h'
  exact ⟨scope, blanks ++ blanks', allBlank_append hblanks hblanks', by rw [String.append_assoc]⟩

theorem onlyBlanks_write {text : String} (h : Text.allBlank text) :
    Along OnlyBlanks (write text) := fun s => ⟨s.scope, text, h, rfl⟩

theorem onlyBlanks_bind (name : String) (v : Value) : Along OnlyBlanks (bind name v) :=
  fun s => ⟨s.scope.bind name v, "", allBlank_empty, by rw [String.append_empty]; rfl⟩

variable {env env' : Environment} {partials partials' : Partials} {n : Node} {ns : List Node}

theorem onlyBlanks_renderNode (h : n.isBlank) : Along OnlyBlanks (renderNode env partials n) := by
  cases n with
  | text line value => exact onlyBlanks_write h
  | raw line name body =>
    have hempty : body = "" := String.isEmpty_iff.mp h
    exact onlyBlanks_write (hempty ▸ allBlank_empty)
  | comment line name body => exact (still_pure _).along onlyBlanks_refl
  | assign line assignment =>
    have hvalue := (still_evaluate env (some line) assignment.source).along onlyBlanks_refl
    exact hvalue.andThen onlyBlanks_trans fun v => onlyBlanks_bind _ _
  | _ => cases h

theorem onlyBlanks_renderNodes (h : ∀ n ∈ ns, n.isBlank) :
    Along OnlyBlanks (renderNodes env partials ns) := by
  induction ns with
  | nil => exact (still_pure _).along onlyBlanks_refl
  | cons n ns ih =>
    have hn : Along OnlyBlanks (renderNode env partials n) :=
      onlyBlanks_renderNode (h n List.mem_cons_self)
    exact hn.andThen onlyBlanks_trans fun _ => ih fun n hn => h n (List.mem_cons_of_mem _ hn)

/-! ## Partials -/

theorem renderNode_of_isBlank (hstrict : env'.strict = env.strict) (hhost : env'.host = env.host)
    (h : n.isBlank) :
    renderNode env' partials' n = renderNode env partials n := by
  cases n with
  | assign line assignment =>
    have hvalue : evaluate env' (some line) assignment.source =
        evaluate env (some line) assignment.source := by
      funext s
      unfold evaluate evaluating setting
      rw [hstrict, hhost]
    unfold renderNode
    rw [hvalue]
  | text | raw | comment => rfl
  | _ => cases h

theorem renderNodes_of_isBlank (hstrict : env'.strict = env.strict) (hhost : env'.host = env.host)
    (h : ∀ n ∈ ns, n.isBlank) :
    renderNodes env' partials' ns = renderNodes env partials ns := by
  induction ns with
  | nil => rfl
  | cons n ns ih =>
    unfold renderNodes
    rw [renderNode_of_isBlank hstrict hhost (h n List.mem_cons_self),
      ih fun n hn => h n (List.mem_cons_of_mem _ hn)]

theorem renderWithin_of_isBlank (hstrict : env'.strict = env.strict)
    (hhost : env'.host = env.host) (h : ∀ n ∈ ns, n.isBlank) (find : String → Render Template)
    (room : Nat) :
    renderWithin env' find room ns = renderNodes env ⟨loadPartial env, none⟩ ns := by
  cases room <;> exact renderNodes_of_isBlank hstrict hhost h

end Render

/--
However it ends, rendering blank nodes has appended blank characters to the text and bound names,
and the rest of the session is as before: no partial was read and no text remembered. It is the
same rendering with any loader, limit, globals and tags, and wherever partials come from. So where
a blank template can be rendered, its text is blank.
-/
theorem blank_nodes_write_only_blanks (env : Environment) :
    (∀ ns : List Node, (∀ n ∈ ns, n.isBlank) →
      (∀ s : Session, s.OnlyBlanks (Render.after (Render.nodes env ns) s)) ∧
      ∀ env' : Environment, env'.strict = env.strict → env'.host = env.host → ∀ find room,
        Render.renderWithin env' find room ns = Render.nodes env ns) ∧
    ∀ (t : Template) (bindings : Frame) (text : String), t.isBlank →
      t.render env bindings = .ok text → Text.allBlank text := by
  have hnodes : ∀ ns : List Node, (∀ n ∈ ns, n.isBlank) → Render.nodes env ns =
      Render.renderNodes env ⟨Render.loadPartial env, none⟩ ns := by
    intro ns h
    funext s
    exact congrFun (Render.renderWithin_of_isBlank rfl rfl h _ (Render.room env s)) s
  have hblanks : ∀ ns : List Node, (∀ n ∈ ns, n.isBlank) →
      ∀ s : Session, s.OnlyBlanks (Render.after (Render.nodes env ns) s) := by
    intro ns h
    rw [hnodes ns h]
    exact Render.onlyBlanks_renderNodes h
  refine ⟨fun ns h => ⟨hblanks ns h, fun env' hstrict hhost find room => ?_⟩, ?_⟩
  · rw [hnodes ns h]
    exact Render.renderWithin_of_isBlank hstrict hhost h find room
  · intro t bindings text ht hrender
    have hs := hblanks t.nodes (List.all_eq_true.mp ht) (.start env bindings t.name)
    unfold Template.render at hrender
    split at hrender
    · next s hrun =>
      rw [Render.after_of_ok hrun] at hs
      obtain ⟨scope, blanks, h, rfl⟩ := hs
      cases hrender
      exact Render.allBlank_append Render.allBlank_empty h
    · cases hrender

/-- A template with a node of each kind that may be blank. -/
def blankPage : Template where
  nodes := [.text 1 "\n", .assign 2 ⟨"x", .literal (.int 1)⟩, .comment 2 "comment" "y",
    .raw 2 "raw" "", .text 2 "\t"]
  name := some "page"
  file := none
  isPartial := false
  source := "\n\x7b% assign x = 1 %\x7d\x7b% comment %\x7dy\x7b% endcomment %\x7d\x7b% raw %\x7d" ++
    "\x7b% endraw %\x7d\t"

theorem parse_blankPage :
    Render.bare.parse blankPage.source (some "page") none false = .ok blankPage := by
  with_unfolding_all rfl

theorem blank_page_writes_only_blanks :
    Render.bare.parse blankPage.source (some "page") none false = .ok blankPage ∧
    blankPage.isBlank ∧ blankPage.render Render.bare [] = .ok "\n\t" ∧ Text.allBlank "\n\t" ∧
    (Session.start Render.bare [] (some "page")).OnlyBlanks
      (Render.after (Render.nodes Render.bare blankPage.nodes)
        (.start Render.bare [] (some "page"))) := by
  have hblank : blankPage.isBlank := by decide
  have hrender : blankPage.render Render.bare [] = .ok "\n\t" := rfl
  obtain ⟨hnodes, htemplate⟩ := blank_nodes_write_only_blanks Render.bare
  exact ⟨parse_blankPage, hblank, hrender, htemplate blankPage [] "\n\t" hblank hrender,
    (hnodes blankPage.nodes (List.all_eq_true.mp hblank)).1 _⟩

end Stencil
