import Stencil.Proofs.Privacy.Evaluation
import Stencil.Proofs.Render.Anew
import Stencil.Proofs.Render.Placement
import Stencil.Tag.Samples

/-!
# Rendering without private attributes

Renderings of one template with variables that look the same write the same text, or fail with the
same error. The tags of this library look at no private attribute; of tags that a host defines, and
of the methods of its objects, this has to be known.
-/

namespace Stencil

open Markup

def Environment.withGlobals (env : Environment) (globals : Frame) : Environment :=
  { env with globals }

/-! ## Tags of the host -/

/-- The tag writes the same for two views that look the same. -/
def InlineTag.IsDiscreet (tag : InlineTag) : Prop :=
  ∀ (markup : String) (view : TagView) (scope : Scope), view.scope.visible = scope.visible →
    tag.write markup view = tag.write markup { view with scope }

/-- All tags of the host in the table are discreet. -/
def TagTable.IsDiscreet (tags : TagTable) : Prop :=
  ∀ name tag, tags.get? name = some (.inline tag) → tag.IsDiscreet

namespace TagTable

theorem get?_insert (tags : TagTable) (name : String) (kind : TagKind) (name' : String) :
    (tags.insert name kind).get? name' = if name' = name then some kind else tags.get? name' := by
  unfold get?
  induction tags with
  | nil => exact lookup_cons_eq_ite _ _ _ _
  | cons entry tags ih =>
    obtain ⟨first, kind'⟩ := entry
    rw [insert]
    split
    · next hfirst =>
      rw [lookup_cons_eq_ite, lookup_cons_eq_ite, hfirst]
      split <;> rfl
    · next hfirst =>
      rw [lookup_cons_eq_ite, lookup_cons_eq_ite, ih]
      by_cases h : name' = first
      · subst h
        rw [if_pos rfl, if_neg hfirst, if_pos rfl]
      · rw [if_neg h, if_neg h]

theorem isDiscreet_default : TagTable.default.IsDiscreet := by
  intro name tag h
  obtain ⟨before, after, htags, -⟩ := List.lookup_eq_some_iff.mp h
  have hmem : (name, TagKind.inline tag) ∈ TagTable.default := by
    rw [htags]
    exact List.mem_append_right before List.mem_cons_self
  simp [TagTable.default] at hmem

theorem IsDiscreet.insert {tags : TagTable} (h : tags.IsDiscreet) {kind : TagKind}
    (hkind : ∀ tag, kind = .inline tag → tag.IsDiscreet) (name : String) :
    (tags.insert name kind).IsDiscreet := by
  intro name' tag hget
  rw [get?_insert] at hget
  split at hget
  · exact hkind tag (Option.some.inj hget)
  · exact h name' tag hget

end TagTable

theorem InlineTag.isDiscreet_shout {host : Host} (hhost : host.IsDiscreet) :
    (shout host).IsDiscreet := by
  intro markup view scope h
  have hfind : (view.scope.find? markup).map Value.visible =
      (scope.find? markup).map Value.visible := by
    rw [← Scope.find?_visible, ← Scope.find?_visible, h]
  unfold shout
  dsimp only
  obtain ⟨hv, hw⟩ | ⟨v, w, hv, hw, hvw⟩ := option_map_eq_map hfind
  · rw [hv, hw]
  · have halike : v.Alike w := hvw
    rw [hv, hw, Option.getD_some, Option.getD_some,
      halike.congr (Value.display?_visible hhost)]

namespace Token

variable {tags : TagTable} {t : Token}

theorem Starts.isDiscreet (htags : tags.IsDiscreet) {line : Nat} {tag : InlineTag}
    {markup : String} (h : t.Starts tags (.node (.inline line tag markup))) : tag.IsDiscreet := by
  obtain @⟨name, text, kind, -, hkind, hstart⟩ := h
  cases kind with
  | inline tag' =>
    cases hstart
    exact htags name tag hkind
  | assign =>
    obtain ⟨a, -, ha⟩ := exists_of_bind_eq_ok hstart
    cases ha
  | inclusion =>
    obtain ⟨i, -, hi⟩ := exists_of_bind_eq_ok hstart
    cases hi
  | conditional | «unless» =>
    obtain ⟨c, -, hc⟩ := exists_of_bind_eq_ok hstart
    cases hc
  | loop =>
    simp only [TagKind.start] at hstart
    split at hstart <;> cases hstart
  | ifChanged => cases hstart
  | raw | comment =>
    simp only [TagKind.start, startLiteral] at hstart
    split at hstart <;> cases hstart

end Token

namespace Render

/-! ## Sessions -/

namespace Bond

theorem sharesOutput_visible : visible.SharesOutput where
  eq := by
    rintro s s' ⟨scope, rfl, -⟩
    rfl
  set := by
    rintro s s' ⟨scope, rfl, h⟩ text
    exact ⟨scope, rfl, h⟩

theorem ties_write_visible (text : String) : visible.Ties Eq (write text) (write text) :=
  ties_write sharesOutput_visible text

theorem ties_bind (name : String) {v w : Value} (hv : v.Alike w) :
    visible.Ties Eq (Render.bind name v) (Render.bind name w) := by
  apply ties_modify
  rintro s s' ⟨scope, rfl, h⟩
  refine ⟨scope.bind name w, rfl, ?_⟩
  rw [Scope.bind_visible, Scope.bind_visible, h, hv]

variable {env : Environment} {globals : Frame}

theorem ties_evaluate (hhost : env.host.IsDiscreet) (line : Option Int) (e : Expr) :
    visible.Ties Value.Alike (evaluate env line e) (evaluate (env.withGlobals globals) line e) := by
  apply ties_evaluating
  rintro s s' ⟨scope, rfl, h⟩
  have hsetting : (s.setting env line).scope.visible = scope.visible := h
  exact Expr.agree_eval hhost hsetting e

theorem ties_chain (hhost : env.host.IsDiscreet) (line : Option Int) (c : Chain) :
    visible.Ties Eq (evaluating env line c.eval)
      (evaluating (env.withGlobals globals) line c.eval) := by
  apply ties_evaluating
  rintro s s' ⟨scope, rfl, h⟩
  have hsetting : (s.setting env line).scope.visible = scope.visible := h
  exact agree_evalChain hhost hsetting c.first c.rest

theorem ties_inFrame {x y : Render Unit} (h : visible.Ties Eq x y) :
    visible.Ties Eq (inFrame x) (inFrame y) := by
  refine h.bracket (fun s => { s with scope := s.scope.push [] })
    (fun s => { s with scope := s.scope.push [] })
    (fun _ t => { t with scope := t.scope.dropTop })
    (fun _ t => { t with scope := t.scope.dropTop }) ?_ ?_
  · rintro s s' ⟨scope, rfl, hs⟩
    refine ⟨scope.push [], rfl, ?_⟩
    rw [Scope.push_visible, Scope.push_visible, hs]
  · rintro s s' - t t' ⟨scope, rfl, ht⟩
    refine ⟨scope.dropTop, rfl, ?_⟩
    rw [Scope.dropTop_visible, Scope.dropTop_visible, ht]

theorem ties_insidePartial {x y : Render Unit} (h : visible.Ties Eq x y) (name : String)
    (line : Int) : visible.Ties Eq (insidePartial name line x) (insidePartial name line y) := by
  refine h.bracket
    (fun s => { s with
      template := some name, isPartial := true, depth := s.depth + 1
      chain := s.chain ++ link s.template line })
    (fun s => { s with
      template := some name, isPartial := true, depth := s.depth + 1
      chain := s.chain ++ link s.template line })
    (fun s t => { t with
      template := s.template, isPartial := s.isPartial, depth := s.depth, chain := s.chain })
    (fun s t => { t with
      template := s.template, isPartial := s.isPartial, depth := s.depth, chain := s.chain })
    ?_ ?_
  · rintro s s' ⟨scope, rfl, hs⟩
    exact ⟨scope, rfl, hs⟩
  · rintro s s' ⟨scope, rfl, -⟩ t t' ⟨scope', rfl, ht⟩
    exact ⟨scope', rfl, ht⟩

/-! ## Loops -/

/-- Lists of values that look the same, one by one. -/
def AllAlike (vs ws : List Value) : Prop := vs.map Value.visible = ws.map Value.visible

theorem ties_loopArgument (hhost : env.host.IsDiscreet) (line : Int) (e : Option Expr) :
    visible.Ties Eq (loopArgument env line e)
      (loopArgument (env.withGlobals globals) line e) := by
  unfold loopArgument
  split
  · exact ties_pure rfl
  · refine (ties_evaluate hhost _ _).andThen fun v w hv => ?_
    split
    · obtain rfl : w = .nil := hv.nil_iff.mp rfl
      exact ties_pure rfl
    · next hother =>
      split
      · exact absurd (hv.nil_iff.mpr rfl) hother
      · apply ties_evaluating
        rintro s s' ⟨scope, rfl, -⟩
        have hsetting : (s.setting env (some line)).host.IsDiscreet := hhost
        have hargument : _ = Setting.argumentError { s.setting env (some line) with scope } w :=
          Setting.argumentError_eq hsetting hv
        have hwhole : visible.Agree Eq _
            (Setting.whole { s.setting env (some line) with scope } _ w) :=
          Setting.agree_whole hsetting (Setting.argumentError (s.setting env (some line)) v) hv
        exact hargument ▸ hwhole.map fun _ _ h => congrArg some h

theorem map_select (f : Value → Value) (vs : List Value) (offset limit : Option Int)
    (isReversed : Bool) :
    (select vs offset limit isReversed).map f = select (vs.map f) offset limit isReversed := by
  have hkept : (keepFront limit (dropFront offset vs)).map f =
      keepFront limit (dropFront offset (vs.map f)) := by
    unfold keepFront dropFront
    cases offset <;> cases limit <;> simp [List.map_take, List.map_drop]
  unfold select
  dsimp only
  split
  · rw [List.map_reverse, hkept]
  · exact hkept

theorem ties_loopItems (hhost : env.host.IsDiscreet) (line : Int) (head : LoopHead) :
    visible.Ties AllAlike (loopItems env line head)
      (loopItems (env.withGlobals globals) line head) := by
  refine (ties_evaluate hhost _ _).andThen fun v w hv => ?_
  have hitems : (v.items? env.host).map (List.map Value.visible) =
      (w.items? env.host).map (List.map Value.visible) := by
    rw [← Value.items?_visible hhost, ← Value.items?_visible hhost, hv]
  obtain ⟨o, hv, hw⟩ | ⟨vs, ws, hv, hw, hvs⟩ := except_map_eq_map hitems
  · have hw : w.items? (env.withGlobals globals).host = .error o := hw
    rw [hv, hw]
    exact ties_throw rfl
  · have hw : w.items? (env.withGlobals globals).host = .ok ws := hw
    rw [hv, hw]
    refine (ties_loopArgument hhost _ _).andThen fun offset offset' hoffset => ?_
    refine (ties_loopArgument hhost _ _).andThen fun limit limit' hlimit => ?_
    apply ties_pure
    unfold AllAlike
    rw [map_select, map_select, hvs, hoffset, hlimit]

section

variable {x y : Render Unit}

theorem ties_iterate (h : visible.Ties Eq x y) (owner : LoopOwner) (name : String) (index0 : Nat)
    {vs ws : List Value} (hvs : AllAlike vs ws) :
    visible.Ties Eq (iterate owner name x index0 vs) (iterate owner name y index0 ws) := by
  induction vs generalizing index0 ws with
  | nil =>
    obtain rfl : ws = [] := List.map_eq_nil_iff.mp hvs.symm
    exact ties_pure rfl
  | cons v vs ih =>
    cases ws with
    | nil => cases hvs
    | cons w ws =>
      obtain ⟨hv, hvs⟩ := List.cons.inj hvs
      have hadvance : visible.Ties Eq (advance owner index0 name v)
          (advance owner index0 name w) := by
        refine (ties_modify ?_).andThen fun _ _ _ => ties_bind name hv
        rintro s s' ⟨scope, rfl, hs⟩
        refine ⟨scope.advance owner index0, rfl, ?_⟩
        rw [Scope.advance_visible, Scope.advance_visible, hs]
      exact hadvance.andThen fun _ _ _ => h.andThen fun _ _ _ => ih _ hvs

theorem ties_runLoop (h : visible.Ties Eq x y) (name : String) {vs ws : List Value}
    (hvs : AllAlike vs ws) : visible.Ties Eq (runLoop name vs x) (runLoop name ws y) := by
  have hlength := congrArg List.length hvs
  rw [List.length_map, List.length_map] at hlength
  refine ties_inFrame (ties_looking ?_)
  rintro s s' ⟨scope, rfl, hs⟩
  have hdepth : s.scope.depth = scope.depth := by
    rw [← Scope.depth_visible, hs, Scope.depth_visible]
  dsimp only
  rw [hlength, hdepth]
  exact (ties_bind _ rfl).andThen fun _ _ _ => ties_iterate h _ _ _ hvs

/-! ## Inclusions -/

theorem nameIn_visible (i : Inclusion) (v : Value) {setting : Setting}
    (hhost : setting.host.IsDiscreet) : nameIn i v.visible setting = nameIn i v setting := by
  have hequals : v.visible.equals setting.host (.text "") = v.equals setting.host (.text "") :=
    Value.equals_visible hhost v (.text "")
  unfold nameIn
  rw [hequals]
  cases v <;> rfl

theorem ties_partialName (hhost : env.host.IsDiscreet) (line : Int) (i : Inclusion) :
    visible.Ties Eq (partialName env line i) (partialName (env.withGlobals globals) line i) := by
  rw [partialName_eq, partialName_eq]
  refine (ties_evaluate hhost _ _).andThen fun v w hv => ?_
  apply ties_evaluating
  rintro s s' ⟨scope, rfl, -⟩
  have hname : nameIn i v (s.setting env line) = nameIn i w (s.setting env line) := by
    have hsetting : (s.setting env line).host.IsDiscreet := hhost
    rw [← nameIn_visible i v hsetting, ← nameIn_visible i w hsetting, hv]
  -- The scope has no part in it once the value is known.
  have hsetting : nameIn i w (Session.setting (env.withGlobals globals) { s with scope } line) =
      nameIn i w (s.setting env line) := rfl
  rw [hname, hsetting]
  cases nameIn i w (s.setting env line) with
  | ok name => exact .ok rfl
  | error e => exact .error rfl

theorem ties_boundValue (hhost : env.host.IsDiscreet) (line : Int) (i : Inclusion) (name : String) :
    visible.Ties Value.Alike (boundValue env line i name)
      (boundValue (env.withGlobals globals) line i name) := by
  unfold boundValue
  split
  · exact ties_evaluate hhost _ _
  · apply ties_looking
    rintro s s' ⟨scope, rfl, hs⟩
    have hfind := Scope.alike_find hs name
    dsimp only
    generalize s.scope.find name = v at hfind ⊢
    generalize scope.find name = w at hfind ⊢
    split
    · obtain rfl : w = .missing := hfind.missing_iff.mp rfl
      exact ties_pure rfl
    · next hfound =>
      split
      · exact absurd (hfind.missing_iff.mpr rfl) hfound
      · exact ties_pure hfind

theorem ties_refuse (name : String) (line : Int) :
    visible.Ties Eq (refuse env name line : Render Unit)
      (refuse (env.withGlobals globals) name line) := by
  rintro s s' ⟨scope, rfl, hs⟩
  exact .error rfl ⟨scope, rfl, hs⟩

theorem ties_bindAttributes (hhost : env.host.IsDiscreet) (line : Int)
    (attributes : List (String × Expr)) :
    visible.Ties Eq (bindAttributes env line attributes)
      (bindAttributes (env.withGlobals globals) line attributes) := by
  induction attributes with
  | nil => exact ties_pure rfl
  | cons first rest ih =>
    refine (ties_evaluate hhost _ _).andThen fun v w hv => ?_
    exact (ties_bind _ hv).andThen fun _ _ _ => ih

theorem ties_renderEach (h : visible.Ties Eq x y) (name : String) {vs ws : List Value}
    (hvs : AllAlike vs ws) : visible.Ties Eq (renderEach name x vs) (renderEach name y ws) := by
  induction vs generalizing ws with
  | nil =>
    obtain rfl : ws = [] := List.map_eq_nil_iff.mp hvs.symm
    exact ties_pure rfl
  | cons v vs ih =>
    cases ws with
    | nil => cases hvs
    | cons w ws =>
      obtain ⟨hv, hvs⟩ := List.cons.inj hvs
      exact (ties_bind _ hv).andThen fun _ _ _ => h.andThen fun _ _ _ => ih hvs

theorem ties_renderBound (h : visible.Ties Eq x y) (name : String) {v w : Value}
    (hv : v.Alike w) :
    visible.Ties Eq (renderBound name x (.ofValue v)) (renderBound name y (.ofValue w)) := by
  have helements : v.elements?.map (List.map Value.visible) =
      w.elements?.map (List.map Value.visible) := by
    rw [← Value.elements?_visible, ← Value.elements?_visible, hv]
  unfold Bound.ofValue
  obtain ⟨hnone, hnone'⟩ | ⟨vs, ws, hvs, hws, halike⟩ := option_map_eq_map helements
  · rw [hnone, hnone']
    exact ties_renderEach h name (congrArg (· :: []) hv)
  · rw [hvs, hws]
    exact ties_renderEach h name halike

end

/-! ## Nodes -/

/-- A template that is found for a name in two renderings: the same, and one of the environment. -/
def SameTemplate (env : Environment) (t t' : Template) : Prop :=
  t = t' ∧ AllWritten env.tags t.tokens t.nodes

/-- Partials are found in step, and what is in them is rendered in step. -/
structure TiesPartials (env : Environment) (p p' : Partials) : Prop where
  find : ∀ name, visible.Ties (SameTemplate env) (p.find name) (p'.find name)
  enter : Option.Rel (fun enter enter' => ∀ (ts : List Token) (ns : List Node),
    AllWritten env.tags ts ns → visible.Ties Eq (enter ns) (enter' ns)) p.enter p'.enter

section

variable {p p' : Partials} {ts : List Token}

theorem ties_loadTemplate (name : String) :
    visible.Ties (SameTemplate env) (loadTemplate env name true)
      (loadTemplate (env.withGlobals globals) name true) := by
  rintro s s' ⟨scope, rfl, hs⟩
  have hasked : visible.sessions (asked env name s)
      (asked (env.withGlobals globals) name { s with scope }) := by
    unfold asked
    show visible.sessions _ (if env.loader.isSome then _ else _)
    split <;> exact ⟨scope, rfl, hs⟩
  cases hload : env.load name true with
  | ok t =>
    have hload' : (env.withGlobals globals).load name true = .ok t := hload
    rw [loadTemplate_of_ok hload, loadTemplate_of_ok hload']
    exact .ok ⟨rfl, allWritten_of_load hload⟩ hasked
  | error e =>
    have hload' : (env.withGlobals globals).load name true = .error e := hload
    rw [loadTemplate_of_error hload, loadTemplate_of_error hload']
    exact .error rfl hasked

theorem ties_writeValue (hhost : env.host.IsDiscreet) {v w : Value} (hv : v.Alike w) :
    visible.Ties Eq (writeValue env v) (writeValue (env.withGlobals globals) w) := by
  have houtput : w.output? (env.withGlobals globals).host = v.output? env.host :=
    (hv.congr (Value.output?_visible hhost)).symm
  unfold writeValue
  rw [houtput]
  split
  · exact ties_write_visible _
  · exact ties_throw rfl

theorem ties_writeChanged (text : String) :
    visible.Ties Eq (writeChanged text) (writeChanged text) := by
  apply ties_looking
  rintro s s' ⟨scope, rfl, -⟩
  dsimp only
  split
  · exact ties_pure rfl
  · refine (ties_modify ?_).andThen fun _ _ _ => ties_write_visible text
    rintro s s' ⟨scope, rfl, hs⟩
    exact ⟨scope, rfl, hs⟩

theorem ties_renderInclusion (hhost : env.host.IsDiscreet) (hp : TiesPartials env p p')
    (line : Int) (i : Inclusion) :
    visible.Ties Eq (renderInclusion env p line i)
      (renderInclusion (env.withGlobals globals) p' line i) := by
  refine (ties_partialName hhost _ _).andThen fun name name' hname => ?_
  obtain rfl : name = name' := hname
  refine (hp.find name).andThen fun t t' ht => ?_
  obtain ⟨rfl, hwritten⟩ := ht
  refine (ties_boundValue hhost _ _ _).andThen fun v w hv => ?_
  have henter := hp.enter
  generalize p.enter = enter at henter ⊢
  generalize p'.enter = enter' at henter ⊢
  cases henter with
  | none => exact ties_refuse name line
  | some henter =>
    apply ties_insidePartial
    apply ties_inFrame
    refine (ties_bindAttributes hhost _ _).andThen fun _ _ _ => ?_
    exact ties_renderBound (henter _ _ hwritten) _ hv

mutual

theorem ties_renderNode (hhost : env.host.IsDiscreet) (htags : env.tags.IsDiscreet)
    (hp : TiesPartials env p p') {node : Node}
    (h : node.Written env.tags ts) :
    visible.Ties Eq (renderNode env p node) (renderNode (env.withGlobals globals) p' node) := by
  cases node with
  | text line value => exact ties_write_visible _
  | output line markup e =>
    refine (ties_evaluate hhost _ _).andThen fun v w hv => ?_
    exact ties_writeValue hhost hv
  | raw line name body => exact ties_write_visible _
  | comment line name body => exact ties_pure rfl
  | assign line assignment => exact (ties_evaluate hhost _ _).andThen fun v w hv => ties_bind _ hv
  | ifChanged line body =>
    cases h with
    | ifChanged hbody =>
      have hframe := ties_inFrame (ties_renderNodes hhost htags hp hbody)
      refine (hframe.capture sharesOutput_visible).andThen fun text text' heq => ?_
      rw [heq]
      exact ties_writeChanged _
  | conditional line isNegated branches otherwise =>
    cases h with
    | conditional _ hbodies hotherwise =>
      have hbranches := ties_renderBranches hhost htags hp line isNegated hbodies
      refine hbranches.andThen fun rendered rendered' heq => ?_
      rw [heq]
      split
      · exact ties_pure rfl
      · exact ties_renderNodes hhost htags hp hotherwise
  | loop line head body otherwise =>
    cases h with
    | loop _ _ _ hbody hotherwise =>
      refine (ties_loopItems hhost _ _).andThen fun items items' hitems => ?_
      have hempty := congrArg List.isEmpty hitems
      rw [List.isEmpty_map, List.isEmpty_map] at hempty
      rw [hempty]
      split
      · exact ties_renderNodes hhost htags hp hotherwise
      · exact ties_runLoop (ties_renderNodes hhost htags hp hbody) _ hitems
  | inclusion line i => exact ties_renderInclusion hhost hp _ _
  | inline line tag markup =>
    cases h with
    | inline ht hstarts =>
      apply ties_looking
      rintro s s' ⟨scope, rfl, hs⟩
      have hwrite : tag.write markup s.view = tag.write markup (Session.view { s with scope }) :=
        hstarts.isDiscreet htags markup s.view scope hs
      rw [hwrite]
      exact ties_write_visible _

theorem ties_renderNodes (hhost : env.host.IsDiscreet) (htags : env.tags.IsDiscreet)
    (hp : TiesPartials env p p')
    {nodes : List Node} (h : ∀ n ∈ nodes, n.Written env.tags ts) :
    visible.Ties Eq (renderNodes env p nodes) (renderNodes (env.withGlobals globals) p' nodes) := by
  cases nodes with
  | nil => exact ties_pure rfl
  | cons node nodes =>
    have hnode := ties_renderNode hhost htags hp (h node List.mem_cons_self)
    refine hnode.andThen fun _ _ _ => ?_
    exact ties_renderNodes hhost htags hp fun n hn => h n (List.mem_cons_of_mem _ hn)

theorem ties_renderBranches (hhost : env.host.IsDiscreet) (htags : env.tags.IsDiscreet)
    (hp : TiesPartials env p p') (line : Nat)
    (isNegated : Bool) {branches : List (Chain × List Node)}
    (h : ∀ b ∈ branches, ∀ n ∈ b.2, n.Written env.tags ts) :
    visible.Ties Eq (renderBranches env p line isNegated branches)
      (renderBranches (env.withGlobals globals) p' line isNegated branches) := by
  match branches with
  | [] => exact ties_pure rfl
  | (condition, body) :: rest =>
    refine (ties_chain hhost _ _).andThen fun holds holds' heq => ?_
    rw [heq]
    split
    · have hbody := ties_renderNodes hhost htags hp (h (condition, body) List.mem_cons_self)
      exact hbody.andThen fun _ _ _ => ties_pure rfl
    · refine ties_renderBranches hhost htags hp line false ?_
      exact fun b hb => h b (List.mem_cons_of_mem _ hb)

end

theorem ties_renderWithin (hhost : env.host.IsDiscreet) (htags : env.tags.IsDiscreet) (room : Nat)
    {ns : List Node}
    (h : AllWritten env.tags ts ns) :
    visible.Ties Eq (renderWithin env (fun name => loadTemplate env name true) room ns)
      (renderWithin (env.withGlobals globals)
        (fun name => loadTemplate (env.withGlobals globals) name true) room ns) := by
  induction room generalizing ts ns with
  | zero => exact ties_renderNodes hhost htags ⟨ties_loadTemplate, .none⟩ h
  | succ room ih => exact ties_renderNodes hhost htags ⟨ties_loadTemplate, .some fun _ _ => ih⟩ h

theorem ties_nodesAnew (hhost : env.host.IsDiscreet) (htags : env.tags.IsDiscreet) {ns : List Node}
    (h : AllWritten env.tags ts ns) :
    visible.Ties Eq (nodesAnew env ns) (nodesAnew (env.withGlobals globals) ns) := by
  apply ties_looking
  rintro s s' ⟨scope, rfl, -⟩
  exact ties_renderWithin hhost htags _ h

end

end Bond

end Render

/-! ## Whole templates -/

open Render (Bond)

section

variable {env : Environment} {globals bindings bindings' : Frame}

theorem Session.alike_start (hglobals : env.globals.visible = globals.visible)
    (hbindings : bindings.visible = bindings'.visible) (template : Option String) :
    Session.Alike (Session.start env bindings template)
      (Session.start (env.withGlobals globals) bindings' template) := by
  refine ⟨Scope.ofBases [globals, bindings'], rfl, ?_⟩
  show (Scope.ofBases [env.globals, bindings]).visible = _
  rw [Scope.ofBases_visible, Scope.ofBases_visible, hglobals, hbindings]

theorem Render.Bond.result_eq {x y : Render Unit} (h : Bond.visible.Ties Eq x y) {s s' : Session}
    (hs : s.Alike s') : Render.result x s = Render.result y s' := by
  have hends := h hs
  unfold Render.result
  generalize x s = r at hends ⊢
  generalize y s' = r' at hends ⊢
  rcases hends with ⟨-, ⟨scope, rfl, -⟩⟩ | ⟨rfl, -⟩
  · rfl
  · rfl

theorem Template.render_eq (hhost : env.host.IsDiscreet) (htags : env.tags.IsDiscreet)
    {t : Template} (ht : AllWritten env.tags t.tokens t.nodes)
    (hglobals : env.globals.visible = globals.visible)
    (hbindings : bindings.visible = bindings'.visible) :
    t.render env bindings = t.render (env.withGlobals globals) bindings' := by
  -- What is remembered of partials makes no difference, so they may be read at every inclusion.
  have hanew : ∀ (env : Environment) bindings,
      t.render env bindings = t.renderAnew env bindings := fun env bindings =>
    Render.result_eq_of_inStep (Render.inStep_nodes env t.nodes) ⟨⟨_, _, rfl⟩, nofun⟩
  rw [hanew, hanew]
  exact Bond.result_eq (Bond.ties_nodesAnew hhost htags ht)
    (Session.alike_start hglobals hbindings t.name)

/--
Private attributes do not show, if no method of a host object and no tag of the host looks at them:
where two sets of variables differ in them alone, a template renders to the same text or fails with
the same error, whether it is rendered itself or found by its name. The entries of a map are no
attributes, and are read under any key.
-/
theorem Template.render_of_visible (hhost : env.host.IsDiscreet) (htags : env.tags.IsDiscreet)
    {source : String} {name file : Option String} {isPartial : Bool} {t : Template}
    (hparse : env.parse source name file isPartial = .ok t)
    (hglobals : env.globals.visible = globals.visible)
    (hbindings : bindings.visible = bindings'.visible) :
    t.render env bindings = t.render (env.withGlobals globals) bindings' ∧
    (∀ name, env.render name bindings = (env.withGlobals globals).render name bindings') ∧
    ∀ entries key found, Value.lookup env.host (.text key) entries = some found →
      (Value.map entries).read env.host (.text key) = .ok found := by
  refine ⟨render_eq hhost htags (Environment.written_of_parse hparse) hglobals hbindings, ?_, ?_⟩
  · intro name
    unfold Environment.render
    show env.getTemplate name >>= _ = env.getTemplate name >>= _
    cases hload : env.getTemplate name with
    | error e => rfl
    | ok t => exact render_eq hhost htags (Render.allWritten_of_load hload) hglobals hbindings
  · intro entries key found hfound
    unfold Value.read
    simp only [Value.badKeyType?, hfound]

end

/-! ## A card with a key -/

/-- A card of the host with a title, and with a key that no template may read. -/
def card (key : Attribute) : Frame :=
  [("p", .object 0 "Card" [("_key", key), ("title", .holds (.text "Hat"))])]

def cardEnvironment (host : Host) : Environment where
  loader := none
  strict := false
  maxDepth := 50
  globals := []
  tags := TagTable.default.insert "shout" (.inline (.shout host))
  host := host

def cardPage : Template where
  nodes := [.output 1 "p._key" (.lookup (.name "p") [.name "_key"] "p._key"),
    .output 1 "p.title" (.lookup (.name "p") [.name "title"] "p.title")]
  name := some "page"
  file := none
  isPartial := false
  source := "\x7b\x7b p._key \x7d\x7d\x7b\x7b p.title \x7d\x7d"

theorem Host.isDiscreet_plain : Host.plain.IsDiscreet where
  text v := congrArg (fun name => some ("<" ++ name ++ ">")) v.typeName_visible
  literal v := congrArg (fun name => some ("<" ++ name ++ ">")) v.typeName_visible
  equals := Value.isSameSingle_visible
  compare _ _ _ := rfl
  badKey _ := rfl
  whole _ := rfl
  items _ := rfl

theorem isDiscreet_cardEnvironment {host : Host} (hhost : host.IsDiscreet) :
    (cardEnvironment host).tags.IsDiscreet := by
  refine TagTable.isDiscreet_default.insert ?_ "shout"
  rintro tag ⟨⟩
  exact InlineTag.isDiscreet_shout hhost

theorem parse_cardPage (host : Host) :
    (cardEnvironment host).parse cardPage.source (some "page") none false = .ok cardPage := by
  with_unfolding_all rfl

/-- A key that has a value, and one that cannot even be read. -/
theorem card_renders_alike :
    let key : Attribute := .holds (.text "secret")
    let broken : Attribute := .raises (.other "no key")
    let env := cardEnvironment .plain
    env.host.IsDiscreet ∧ env.tags.IsDiscreet ∧ (card key).visible = (card broken).visible ∧
    cardPage.render env (card key) = .ok "Hat" ∧
    cardPage.render env (card key) = cardPage.render (env.withGlobals []) (card broken) :=
  ⟨Host.isDiscreet_plain, isDiscreet_cardEnvironment Host.isDiscreet_plain, rfl, rfl,
    (Template.render_of_visible Host.isDiscreet_plain
      (isDiscreet_cardEnvironment Host.isDiscreet_plain) (parse_cardPage .plain) rfl rfl).1⟩

def cardText : Value → Option String
  | .object _ className attributes =>
    match attributes.lookup "_key" with
    | some (.holds (.text key)) => some (className ++ "(_key=" ++ Text.quoted key ++ ")")
    | _ => some className
  | _ => none

/-- Cards whose text shows their key. -/
def Host.openly : Host := { Host.plain with text? := cardText }

def cardTextPage : Template where
  nodes := [.output 1 "p" (.lookup (.name "p") [] "p")]
  name := some "page"
  file := none
  isPartial := false
  source := "\x7b\x7b p \x7d\x7d"

/-- A class of the host may show what templates cannot read. -/
theorem card_shows_its_key :
    let first := card (.holds (.text "a"))
    let second := card (.holds (.text "b"))
    let env := cardEnvironment .openly
    env.parse cardTextPage.source (some "page") none false = .ok cardTextPage ∧
    first.visible = second.visible ∧
    cardTextPage.render env first = .ok "Card(_key='a')" ∧
    cardTextPage.render env second = .ok "Card(_key='b')" :=
  ⟨by with_unfolding_all rfl, rfl, rfl, rfl⟩

end Stencil
