import Stencil.Proofs.Clean.Loading
import Stencil.Proofs.Render.Lasting

/-!
# Rendering without escapes

A rendering that starts in a session without escapes ends in one, whether it succeeds or fails. What
it evaluates on the way has none either, and so there is none in the error with which it fails.
-/

namespace Stencil

open Text Markup

/-! ## Sessions -/

/-- Nothing is said of the output, since no error quotes it. -/
structure Session.Clean (s : Session) : Prop where
  scope : s.scope.Clean
  template : ∀ name ∈ s.template, Text.Clean name
  chain : ∀ link ∈ s.chain, Text.Clean link.1
  partials : ∀ entry ∈ s.partials, entry.2.Clean

namespace Session.Clean

variable {s : Session}

theorem setting (h : s.Clean) {env : Environment} (henv : env.Clean) (line : Option Int) :
    (s.setting env line).Clean := ⟨h.scope, henv.host, h.template⟩

theorem withScope (h : s.Clean) {scope : Scope} (hscope : scope.Clean) :
    Session.Clean { s with scope := scope } := ⟨hscope, h.template, h.chain, h.partials⟩

theorem bind (h : s.Clean) {name : String} (hname : Text.Clean name) {v : Value} (hv : v.Clean) :
    Session.Clean { s with scope := s.scope.bind name v } := h.withScope (h.scope.bind hname hv)

theorem withOutput (h : s.Clean) (output : String) : Session.Clean { s with output := output } :=
  ⟨h.scope, h.template, h.chain, h.partials⟩

theorem start {env : Environment} (henv : env.Clean) {bindings : Frame}
    (hbindings : bindings.Clean) {template : Option String}
    (htemplate : ∀ name ∈ template, Text.Clean name) :
    (Session.start env bindings template).Clean := by
  have hbases : ∀ frame ∈ [env.globals, bindings], Frame.Clean frame :=
    List.forall_mem_cons.mpr ⟨henv.globals, List.forall_mem_singleton.mpr hbindings⟩
  exact ⟨Scope.clean_ofBases hbases, htemplate, List.forall_mem_nil _, List.forall_mem_nil _⟩

end Session.Clean

namespace Render

/-! ## Actions -/

/-- Whether it succeeds or fails, no escape is in the session, the result or the error. -/
def Ends {α : Type} (P : α → Prop) : EStateM.Result Error Session α → Prop
  | .ok a s => P a ∧ s.Clean
  | .error e s => e.Clean ∧ s.Clean

def StaysClean {α : Type} (P : α → Prop) (action : Render α) : Prop :=
  ∀ s, s.Clean → Ends P (action s)

abbrev Any {α : Type} (_ : α) : Prop := True

section

variable {α β : Type} {P : α → Prop} {Q : β → Prop} {env : Environment}

theorem staysClean_pure {a : α} (h : P a) : StaysClean P (pure a) := fun _ hs => ⟨h, hs⟩

theorem staysClean_get : StaysClean Session.Clean get := fun _ hs => ⟨hs, hs⟩

theorem staysClean_throw {e : Error} (h : e.Clean) : StaysClean P (throw e : Render α) :=
  fun _ hs => ⟨h, hs⟩

theorem staysClean_modify {f : Session → Session} (h : ∀ s, s.Clean → (f s).Clean) :
    StaysClean Any (modify f) := fun s hs => ⟨trivial, h s hs⟩

namespace StaysClean

theorem andThen {x : Render α} {f : α → Render β} (hx : StaysClean P x)
    (hf : ∀ a, P a → StaysClean Q (f a)) : StaysClean Q (x >>= f) := by
  intro s hs
  have hend := hx s hs
  show Ends Q (EStateM.bind x f s)
  unfold EStateM.bind
  cases h : x s with
  | ok a s' =>
    rw [h] at hend
    exact hf a hend.1 s' hend.2
  | error e s' =>
    rw [h] at hend
    exact hend

theorem ensuring {x : Render α} (hx : StaysClean P x) {restore : Session → Session}
    (hrestore : ∀ s, s.Clean → (restore s).Clean) : StaysClean P (ensuring restore x) := by
  intro s hs
  have hend := hx s hs
  unfold Render.ensuring
  cases h : x s with
  | ok a s' =>
    rw [h] at hend
    exact ⟨hend.1, hrestore s' hend.2⟩
  | error e s' =>
    rw [h] at hend
    exact ⟨hend.1, hrestore s' hend.2⟩

theorem inFrame {x : Render α} (hx : StaysClean P x) : StaysClean P (inFrame x) := by
  intro s hs
  have hdrop : ∀ s' : Session, s'.Clean → Session.Clean { s' with scope := s'.scope.dropTop } :=
    fun s' hs' => hs'.withScope hs'.scope.dropTop
  exact hx.ensuring hdrop _ (hs.withScope hs.scope.push)

theorem capture {x : Render Unit} (hx : StaysClean Any x) : StaysClean Any (capture x) := by
  intro s hs
  have hend := hx { s with output := "" } (hs.withOutput "")
  unfold Render.capture
  cases h : x { s with output := "" } with
  | ok a s' =>
    rw [h] at hend
    exact ⟨trivial, hend.2.withOutput s.output⟩
  | error e s' =>
    rw [h] at hend
    exact ⟨hend.1, hend.2.withOutput s.output⟩

end StaysClean

theorem staysClean_write (text : String) : StaysClean Any (write text) :=
  staysClean_modify fun _ hs => hs.withOutput _

theorem staysClean_bind {name : String} (hname : Text.Clean name) {v : Value} (hv : v.Clean) :
    StaysClean Any (bind name v) := staysClean_modify fun _ hs => hs.bind hname hv

theorem staysClean_evaluating (henv : env.Clean) {line : Option Int}
    {eval : Setting → Except Error α}
    (heval : ∀ setting, setting.Clean → Yields Error.Clean P (eval setting)) :
    StaysClean P (evaluating env line eval) := by
  intro s hs
  have heval := heval _ (hs.setting henv line)
  unfold evaluating
  split
  · next a ha => exact ⟨heval.of_ok ha, hs⟩
  · next e he => exact ⟨heval.of_error he, hs⟩

theorem staysClean_evaluate (henv : env.Clean) {e : Expr} (he : e.Clean) (line : Option Int) :
    StaysClean Value.Clean (evaluate env line e) :=
  staysClean_evaluating henv fun _ hsetting => Expr.yields_eval hsetting he

/-! ## Partials -/

theorem clean_link {template : Option String} (h : ∀ name ∈ template, Text.Clean name)
    (line : Int) : ∀ entry ∈ link template line, Text.Clean entry.1 := by
  intro entry hentry
  unfold link at hentry
  split at hentry
  · next name hname =>
    split at hentry
    · cases hentry
    · cases List.mem_singleton.mp hentry
      exact clean_stated? h name hname
  · cases hentry

theorem StaysClean.insidePartial {name : String} (hname : Text.Clean name) (line : Int)
    {x : Render α} (hx : StaysClean P x) : StaysClean P (insidePartial name line x) := by
  intro s hs
  have hleave : ∀ s' : Session, s'.Clean → Session.Clean { s' with
      template := s.template, isPartial := s.isPartial, depth := s.depth, chain := s.chain } :=
    fun s' hs' => ⟨hs'.scope, hs.template, hs.chain, hs'.partials⟩
  refine hx.ensuring hleave _ ⟨hs.scope, clean_some hname, ?_, hs.partials⟩
  exact List.forall_mem_append.mpr ⟨hs.chain, clean_link hs.template line⟩

theorem staysClean_refuse {name : String} (hname : Text.Clean name) (line : Int) :
    StaysClean P (refuse env name line : Render α) := by
  intro s hs
  have hfault : (RuntimeFault.depth env.maxDepth name).Clean :=
    List.forall_mem_singleton.mpr hname
  exact ⟨⟨hfault, clean_none, hs.template, hs.chain⟩, hs⟩

theorem staysClean_loadTemplate (henv : env.Clean) {name : String} (hname : Text.Clean name)
    (isPartial : Bool) : StaysClean Template.Clean (loadTemplate env name isPartial) := by
  intro s hs
  have hload := Environment.yields_load henv hname isPartial
  have hasked : Session.Clean
      (if env.loader.isSome then { s with reads := s.reads ++ [name] } else s) := by
    split
    · exact ⟨hs.scope, hs.template, hs.chain, hs.partials⟩
    · exact hs
  unfold loadTemplate
  dsimp only
  split
  · next t ht => exact ⟨hload.of_ok ht, hasked⟩
  · next e he => exact ⟨hload.of_error he, hasked⟩

theorem staysClean_loadPartial (henv : env.Clean) {name : String} (hname : Text.Clean name) :
    StaysClean Template.Clean (loadPartial env name) := by
  refine staysClean_get.andThen fun s hs => ?_
  split
  · next t ht => exact staysClean_pure (hs.partials _ (Value.mem_of_lookup ht))
  · refine (staysClean_loadTemplate henv hname true).andThen fun t ht => ?_
    have hremember : StaysClean Any
        (modify fun s => { s with partials := s.partials ++ [(name, t)] } : Render PUnit) := by
      refine staysClean_modify fun s hs => ⟨hs.scope, hs.template, hs.chain, ?_⟩
      exact List.forall_mem_append.mpr ⟨hs.partials, List.forall_mem_singleton.mpr ht⟩
    exact hremember.andThen fun _ _ => staysClean_pure ht

/-! ## Loops -/

theorem staysClean_loopArgument (henv : env.Clean) {e : Option Expr} (he : ∀ e' ∈ e, e'.Clean)
    (line : Int) : StaysClean Any (loopArgument env line e) := by
  cases e with
  | none => exact staysClean_pure trivial
  | some e =>
    refine (staysClean_evaluate henv (he e rfl) _).andThen fun v hv => ?_
    split
    · exact staysClean_pure trivial
    · refine staysClean_evaluating henv fun setting hsetting => ?_
      exact (Setting.Clean.whole (hsetting.argumentError hv) setting v).map fun _ _ => trivial

theorem select_subset (items : List Value) (offset limit : Option Int) (isReversed : Bool) :
    select items offset limit isReversed ⊆ items := by
  have hdrop : dropFront offset items ⊆ items := by
    cases offset with
    | none => exact List.Subset.refl _
    | some n => exact List.drop_subset _ _
  have hkeep : keepFront limit (dropFront offset items) ⊆ items := by
    cases limit with
    | none => exact hdrop
    | some n => exact List.Subset.trans (List.take_subset _ _) hdrop
  unfold select
  dsimp only
  split
  · exact List.reverse_subset.mpr hkeep
  · exact hkeep

theorem staysClean_loopItems (henv : env.Clean) {head : LoopHead} (h : head.Clean) (line : Int) :
    StaysClean (fun items : List Value => ∀ v ∈ items, v.Clean) (loopItems env line head) := by
  refine (staysClean_evaluate henv h.collection _).andThen fun v hv => ?_
  have hitems := Value.yields_items henv.host hv
  split
  · exact staysClean_throw trivial
  · next items heq =>
    refine (staysClean_loopArgument henv h.offset line).andThen fun offset _ => ?_
    refine (staysClean_loopArgument henv h.limit line).andThen fun limit _ => ?_
    refine staysClean_pure fun item hitem => ?_
    exact hitems.of_ok heq item (select_subset _ _ _ _ hitem)

theorem StaysClean.iterate {name : String} (hname : Text.Clean name) {body : Render Unit}
    (hbody : StaysClean Any body) (owner : LoopOwner) (index0 : Nat) {items : List Value}
    (hitems : ∀ v ∈ items, v.Clean) : StaysClean Any (iterate owner name body index0 items) := by
  induction items generalizing index0 with
  | nil => exact staysClean_pure trivial
  | cons item items ih =>
    obtain ⟨hitem, hitems⟩ := List.forall_mem_cons.mp hitems
    have hadvance : StaysClean Any (advance owner index0 name item) :=
      (staysClean_modify fun s hs => hs.withScope (hs.scope.advance owner index0)).andThen
        fun _ _ => staysClean_bind hname hitem
    exact hadvance.andThen fun _ _ => hbody.andThen fun _ _ => ih _ hitems

theorem StaysClean.runLoop {name : String} (hname : Text.Clean name) {body : Render Unit}
    (hbody : StaysClean Any body) {items : List Value} (hitems : ∀ v ∈ items, v.Clean) :
    StaysClean Any (runLoop name items body) := by
  refine StaysClean.inFrame (staysClean_get.andThen fun s _ => ?_)
  refine (staysClean_bind (by decide) (.loop _)).andThen fun _ _ => ?_
  exact hbody.iterate hname _ _ hitems

/-! ## Inclusions -/

theorem staysClean_partialName (henv : env.Clean) {i : Inclusion} (h : i.Clean) (line : Int) :
    StaysClean Text.Clean (partialName env line i) := by
  refine (staysClean_evaluate henv h.template _).andThen fun v hv => ?_
  refine staysClean_evaluating henv fun setting hsetting => ?_
  have htype : (RuntimeFault.nameType v.typeName).Clean :=
    List.forall_mem_singleton.mpr hv.typeName
  split_ifs
  · exact hsetting.fault RuntimeFault.clean_missingName (clean_some h.markup)
  · cases hv with
    | text hname => exact hname
    | _ => exact hsetting.fault htype (clean_some h.markup)

theorem staysClean_boundValue (henv : env.Clean) {i : Inclusion} (h : i.Clean) (line : Int)
    (name : String) :
    StaysClean Value.Clean (boundValue env line i name) := by
  unfold boundValue
  split
  · next e he => exact staysClean_evaluate henv (h.bound e he) _
  · refine staysClean_get.andThen fun s hs => ?_
    have hfind := hs.scope.find name
    split
    · exact staysClean_pure .nil
    · exact staysClean_pure hfind

theorem staysClean_bindAttributes (henv : env.Clean) {attributes : List (String × Expr)}
    (h : ∀ a ∈ attributes, Text.Clean a.1 ∧ a.2.Clean) (line : Int) :
    StaysClean Any (bindAttributes env line attributes) := by
  induction attributes with
  | nil => exact staysClean_pure trivial
  | cons first rest ih =>
    obtain ⟨⟨hkey, he⟩, hrest⟩ := List.forall_mem_cons.mp h
    refine (staysClean_evaluate henv he _).andThen fun v hv => ?_
    exact (staysClean_bind hkey hv).andThen fun _ _ => ih hrest

theorem StaysClean.renderEach {name : String} (hname : Text.Clean name) {body : Render Unit}
    (hbody : StaysClean Any body) {vs : List Value} (hvs : ∀ v ∈ vs, v.Clean) :
    StaysClean Any (renderEach name body vs) := by
  induction vs with
  | nil => exact staysClean_pure trivial
  | cons v vs ih =>
    obtain ⟨hv, hvs⟩ := List.forall_mem_cons.mp hvs
    exact (staysClean_bind hname hv).andThen fun _ _ => hbody.andThen fun _ _ => ih hvs

theorem StaysClean.renderBound {name : String} (hname : Text.Clean name) {body : Render Unit}
    (hbody : StaysClean Any body) {v : Value} (hv : v.Clean) :
    StaysClean Any (renderBound name body (.ofValue v)) := by
  unfold Bound.ofValue
  split
  · next vs heq => exact hbody.renderEach hname (hv.elements heq)
  · exact hbody.renderEach hname (List.forall_mem_singleton.mpr hv)

theorem clean_bindingName {name : String} (h : Text.Clean name) :
    Text.Clean (bindingName name) := by
  refine clean_ofList.mpr (NoEscape.of_subset h fun c hc => ?_)
  exact List.mem_reverse.mp ((List.takeWhile_sublist _).subset (List.mem_reverse.mp hc))

/-- No escape comes in with the partials that are found, nor with what is rendered of them. -/
structure Partials.Clean (partials : Partials) : Prop where
  find : ∀ name, Text.Clean name → StaysClean Template.Clean (partials.find name)
  enter : ∀ enter ∈ partials.enter, ∀ ns : List Node, (∀ n ∈ ns, n.Clean) →
    StaysClean Any (enter ns)

section

variable {partials : Partials}

theorem staysClean_renderInclusion (henv : env.Clean) (hp : partials.Clean) {i : Inclusion}
    (h : i.Clean) (line : Int) : StaysClean Any (renderInclusion env partials line i) := by
  refine (staysClean_partialName henv h line).andThen fun name hname => ?_
  refine (hp.find name hname).andThen fun t ht => ?_
  refine (staysClean_boundValue henv h line name).andThen fun v hv => ?_
  split
  · exact staysClean_refuse hname line
  · next enter heq =>
    have hbody := hp.enter enter heq t.nodes ht.1
    refine StaysClean.insidePartial hname line (StaysClean.inFrame ?_)
    refine (staysClean_bindAttributes henv h.attributes line).andThen fun _ _ => ?_
    exact hbody.renderBound (clean_bindingName hname) hv

/-! ## Nodes -/

theorem staysClean_writeValue (v : Value) : StaysClean Any (writeValue env v) := by
  unfold writeValue
  split
  · exact staysClean_write _
  · exact staysClean_throw trivial

theorem staysClean_writeChanged (text : String) : StaysClean Any (writeChanged text) := by
  refine staysClean_get.andThen fun s _ => ?_
  split
  · exact staysClean_pure trivial
  · have hremember : StaysClean Any
        (modify fun s => { s with lastChanged := some text } : Render PUnit) :=
      staysClean_modify fun s hs => ⟨hs.scope, hs.template, hs.chain, hs.partials⟩
    exact hremember.andThen fun _ _ => staysClean_write text

mutual

theorem staysClean_renderNode (henv : env.Clean) (hp : partials.Clean) {n : Node} (h : n.Clean) :
    StaysClean Any (renderNode env partials n) := by
  cases h with
  | text line value => exact staysClean_write value
  | output he => exact (staysClean_evaluate henv he _).andThen fun v _ => staysClean_writeValue v
  | raw line name body => exact staysClean_write body
  | comment line name body => exact staysClean_pure trivial
  | assign ha =>
    exact (staysClean_evaluate henv ha.source _).andThen fun v hv => staysClean_bind ha.target hv
  | ifChanged hbody =>
    have hcapture := (staysClean_renderNodes henv hp hbody).inFrame.capture
    exact hcapture.andThen fun text _ => staysClean_writeChanged text
  | @conditional line isNegated branches otherwise hconditions hbodies hotherwise =>
    have hbranches := staysClean_renderBranches henv hp line isNegated hconditions hbodies
    refine hbranches.andThen fun rendered _ => ?_
    split
    · exact staysClean_pure trivial
    · exact staysClean_renderNodes henv hp hotherwise
  | loop hhead hbody hotherwise =>
    refine (staysClean_loopItems henv hhead _).andThen fun items hitems => ?_
    split
    · exact staysClean_renderNodes henv hp hotherwise
    · exact (staysClean_renderNodes henv hp hbody).runLoop hhead.item hitems
  | inclusion hi => exact staysClean_renderInclusion henv hp hi _
  | inline line tag markup => exact staysClean_get.andThen fun s _ => staysClean_write _

theorem staysClean_renderNodes (henv : env.Clean) (hp : partials.Clean) {ns : List Node}
    (h : ∀ n ∈ ns, n.Clean) : StaysClean Any (renderNodes env partials ns) := by
  cases ns with
  | nil => exact staysClean_pure trivial
  | cons n ns =>
    obtain ⟨hn, hns⟩ := List.forall_mem_cons.mp h
    exact (staysClean_renderNode henv hp hn).andThen fun _ _ => staysClean_renderNodes henv hp hns

theorem staysClean_renderBranches (henv : env.Clean) (hp : partials.Clean) (line : Nat)
    (isNegated : Bool) {branches : List (Chain × List Node)}
    (hconditions : ∀ b ∈ branches, b.1.Clean)
    (hbodies : ∀ b ∈ branches, ∀ n ∈ b.2, n.Clean) :
    StaysClean Any (renderBranches env partials line isNegated branches) := by
  cases branches with
  | nil => exact staysClean_pure trivial
  | cons branch rest =>
    obtain ⟨condition, body⟩ := branch
    obtain ⟨hcondition, hconditions⟩ := List.forall_mem_cons.mp hconditions
    obtain ⟨hbody, hbodies⟩ := List.forall_mem_cons.mp hbodies
    have heval : StaysClean Any (evaluating env (some (line : Int)) condition.eval) :=
      staysClean_evaluating henv fun _ hsetting => Chain.yields_eval hsetting hcondition
    refine heval.andThen fun holds _ => ?_
    split
    · exact (staysClean_renderNodes henv hp hbody).andThen fun _ _ => staysClean_pure trivial
    · exact staysClean_renderBranches henv hp line false hconditions hbodies

end

end

theorem staysClean_renderWithin (henv : env.Clean) {find : String → Render Template}
    (hfind : ∀ name, Text.Clean name → StaysClean Template.Clean (find name)) (room : Nat)
    {ns : List Node} (h : ∀ n ∈ ns, n.Clean) :
    StaysClean Any (renderWithin env find room ns) := by
  -- What is rendered of a partial has less room, so it stays clean by induction.
  induction room generalizing ns with
  | zero => exact staysClean_renderNodes henv ⟨hfind, by simp⟩ h
  | succ room ih =>
    refine staysClean_renderNodes henv ⟨hfind, ?_⟩ h
    rintro enter ⟨⟩ ns
    exact ih

theorem staysClean_nodes (henv : env.Clean) {ns : List Node} (h : ∀ n ∈ ns, n.Clean) :
    StaysClean Any (nodes env ns) :=
  staysClean_get.andThen fun _ _ =>
    staysClean_renderWithin henv (fun _ hname => staysClean_loadPartial henv hname) _ h

end

end Render

/-! ## Whole templates -/

section

variable {env : Environment} {bindings : Frame}

theorem Template.yields_render (henv : env.Clean) (hbindings : bindings.Clean) {t : Template}
    (ht : t.Clean) : Yields Error.Clean (fun _ => True) (t.render env bindings) := by
  have hend := Render.staysClean_nodes henv ht.1 _ (Session.Clean.start henv hbindings ht.2)
  unfold Template.render
  split
  · trivial
  · next e s he =>
    rw [he] at hend
    exact hend.1

theorem Environment.yields_render (henv : env.Clean) (hbindings : bindings.Clean) {name : String}
    (hname : Text.Clean name) :
    Yields Error.Clean (fun _ => True) (env.render name bindings) :=
  (yields_load henv hname false).bind fun _ ht => Template.yields_render henv hbindings ht

end

end Stencil
