import Stencil.Condition.Evaluation
import Stencil.Proofs.Expr.Visit
import Stencil.Proofs.Privacy.Value
import Stencil.Proofs.Render.Bond

/-!
# Evaluation without private attributes

In two scopes that look the same to templates, an expression has values that look the same, or fails
with the same error.
-/

namespace Stencil

/-! ## Scopes -/

def Frame.visible (f : Frame) : Frame := f.map fun (name, v) => (name, v.visible)

def Scope.visible (s : Scope) : Scope := ⟨s.top.visible, s.below.map Frame.visible⟩

namespace Frame

theorem lookup_visible (f : Frame) (name : String) :
    f.visible.lookup name = (f.lookup name).map Value.visible := by
  unfold visible
  induction f with
  | nil => rfl
  | cons binding f ih =>
    obtain ⟨name', v⟩ := binding
    simp only [List.map_cons, List.lookup_cons, ih]
    cases name == name' <;> rfl

theorem bind_visible (f : Frame) (name : String) (v : Value) :
    (f.bind name v).visible = f.visible.bind name v.visible := by
  unfold visible
  induction f with
  | nil => rfl
  | cons binding f ih =>
    obtain ⟨name', v'⟩ := binding
    unfold Frame.bind
    rw [List.map_cons]
    dsimp only
    split
    · rfl
    · rw [List.map_cons, ih]

theorem merge_visible (f later : Frame) :
    (f.merge later).visible = f.visible.merge later.visible := by
  unfold merge
  induction later generalizing f with
  | nil => rfl
  | cons binding later ih =>
    obtain ⟨name, v⟩ := binding
    rw [List.foldl_cons, ih, bind_visible]
    rfl

theorem names_visible (f : Frame) : f.visible.names = f.names := by
  unfold visible names
  rw [List.map_map]
  rfl

end Frame

namespace Scope

theorem frames_visible (s : Scope) : s.visible.frames = s.frames.map Frame.visible := rfl

theorem find?_visible (s : Scope) (name : String) :
    s.visible.find? name = (s.find? name).map Value.visible := by
  unfold find?
  rw [frames_visible, List.findSome?_map, List.map_findSome?]
  congr 1
  funext f
  exact f.lookup_visible name

theorem find_visible (s : Scope) (name : String) :
    s.visible.find name = (s.find name).visible := by
  unfold find
  rw [find?_visible]
  cases s.find? name <;> rfl

theorem names_visible (s : Scope) : s.visible.names = s.names := by
  unfold names
  rw [frames_visible, List.flatMap_map]
  simp only [Frame.names_visible]

theorem depth_visible (s : Scope) : s.visible.depth = s.depth := by
  unfold depth visible
  rw [List.length_map]

theorem bind_visible (s : Scope) (name : String) (v : Value) :
    (s.bind name v).visible = s.visible.bind name v.visible := by
  unfold Scope.bind visible
  rw [Frame.bind_visible]

theorem push_visible (s : Scope) (f : Frame) : (s.push f).visible = s.visible.push f.visible := rfl

theorem dropTop_visible (s : Scope) : s.dropTop.visible = s.visible.dropTop := by
  obtain ⟨top, below⟩ := s
  cases below <;> rfl

theorem advance_visible (s : Scope) (owner : LoopOwner) (index0 : Int) :
    (s.advance owner index0).visible = s.visible.advance owner index0 := by
  unfold advance visible Frame.visible
  congr 1
  rw [List.map_map, List.map_map]
  congr 1
  funext (name, v)
  cases v <;> rfl

theorem ofBases_visible (f g : Frame) :
    (ofBases [f, g]).visible = ofBases [f.visible, g.visible] := by
  show Scope.mk (((Frame.merge [] f).merge g).visible) [] = _
  rw [Frame.merge_visible, Frame.merge_visible]
  rfl

end Scope

/-! ## What looks the same -/

/-- Two values that differ at most in the private attributes of objects. -/
def Value.Alike (v w : Value) : Prop := v.visible = w.visible

/-- The same session but for a scope that looks the same. -/
def Session.Alike (s s' : Session) : Prop :=
  ∃ scope, s' = { s with scope := scope } ∧ s.scope.visible = scope.visible

/-- Sessions that differ at most in the private attributes of objects, and no errors. -/
def Render.Bond.visible : Render.Bond where
  sessions := Session.Alike
  errors := Eq

open Render (Bond)

namespace Value

variable {v w : Value}

theorem Alike.congr {α : Type} {f : Value → α} (h : v.Alike w) (hf : ∀ v, f v.visible = f v) :
    f v = f w := by
  rw [← hf v, ← hf w, h]

theorem Alike.missing_iff (h : v.Alike w) : v = .missing ↔ w = .missing := by
  rw [← visible_eq_missing v, ← visible_eq_missing w, h]

theorem Alike.nil_iff (h : v.Alike w) : v = .nil ↔ w = .nil := by
  rw [← visible_eq_nil v, ← visible_eq_nil w, h]

theorem Alike.text_iff (h : v.Alike w) (s : String) : v = .text s ↔ w = .text s := by
  rw [← visible_eq_text v, ← visible_eq_text w, h]

end Value

theorem Scope.alike_find {s s' : Scope} (h : s.visible = s'.visible) (name : String) :
    (s.find name).Alike (s'.find name) := by
  unfold Value.Alike
  rw [← find_visible, ← find_visible, h]

/-! ## Results that look the same -/

theorem except_map_eq_map {ε α β : Type} {f : α → β} {x y : Except ε α} (h : x.map f = y.map f) :
    (∃ e, x = .error e ∧ y = .error e) ∨ ∃ a b, x = .ok a ∧ y = .ok b ∧ f a = f b := by
  cases x with
  | error e =>
    cases y with
    | error e' =>
      cases h
      exact .inl ⟨e, rfl, rfl⟩
    | ok b => cases h
  | ok a =>
    cases y with
    | error e' => cases h
    | ok b => exact .inr ⟨a, b, rfl, rfl, Except.ok.inj h⟩

theorem option_map_eq_map {α β : Type} {f : α → β} {x y : Option α} (h : x.map f = y.map f) :
    (x = none ∧ y = none) ∨ ∃ a b, x = some a ∧ y = some b ∧ f a = f b := by
  cases x with
  | none =>
    cases y with
    | none => exact .inl ⟨rfl, rfl⟩
    | some b => cases h
  | some a =>
    cases y with
    | none => cases h
    | some b => exact .inr ⟨a, b, rfl, rfl, Option.some.inj h⟩

/-! ## Expressions -/

section

variable {s : Setting} {scope : Scope}

theorem Setting.agree_undefined (h : s.scope.visible = scope.visible) (markup : String) :
    Bond.visible.Agree Value.Alike (s.undefined markup)
      (Setting.undefined { s with scope } markup) := by
  have hnames : s.scope.names = scope.names := by
    rw [← s.scope.names_visible, ← scope.names_visible, h]
  unfold Setting.undefined
  dsimp only
  split
  · rw [hnames]
    exact .error rfl
  · exact .ok rfl

theorem Setting.agree_whole (hhost : s.host.IsDiscreet) (unreadable : Error) {v w : Value}
    (hv : v.Alike w) :
    Bond.visible.Agree Eq (s.whole unreadable v) (Setting.whole { s with scope } unreadable w) := by
  unfold Setting.whole
  rw [← hv.congr fun v => v.whole?_visible hhost]
  split
  · exact .ok rfl
  · exact .error rfl
  · exact .error rfl

theorem Setting.argumentError_eq (hhost : s.host.IsDiscreet) {v w : Value} (hv : v.Alike w) :
    s.argumentError v = Setting.argumentError { s with scope } w := by
  unfold Setting.argumentError
  rw [hv.congr (Value.literal?_visible hhost)]
  rfl

theorem Setting.boundsError_eq (hhost : s.host.IsDiscreet) {low high low' high' : Value}
    (hlow : low.Alike low') (hhigh : high.Alike high') :
    s.boundsError low high = Setting.boundsError { s with scope } low' high' := by
  unfold Setting.boundsError
  rw [hlow.congr (Value.literal?_visible hhost), hhigh.congr (Value.literal?_visible hhost)]
  rfl

theorem Setting.readError_eq (hhost : s.host.IsDiscreet) {v w k k' : Value} (hv : v.Alike w)
    (hk : k.Alike k') (markup : String) (f : Value.ReadFault) :
    s.readError markup v k f = Setting.readError { s with scope } markup w k' f := by
  unfold Setting.readError
  rw [hk.congr (Value.literal?_visible hhost), hv.congr Value.typeName_visible]
  rfl

theorem Setting.agree_read (hhost : s.host.IsDiscreet) {v w k k' : Value} (hv : v.Alike w)
    (hk : k.Alike k') (markup : String) :
    Bond.visible.Agree Value.Alike (s.read markup v k)
      (Setting.read { s with scope } markup w k') := by
  have hread : (v.read s.host k).map Value.visible = (w.read s.host k').map Value.visible := by
    rw [← Value.read_visible hhost, ← Value.read_visible hhost, hv, hk]
  unfold Setting.read
  obtain ⟨f, hfault, hfault'⟩ | ⟨found, found', hfound, hfound', halike⟩ := except_map_eq_map hread
  · rw [hfault, hfault']
    exact .error (readError_eq hhost hv hk markup f)
  · rw [hfound, hfound']
    exact .ok halike

namespace Expr

mutual

theorem agree_eval (hhost : s.host.IsDiscreet) (h : s.scope.visible = scope.visible) (e : Expr) :
    Bond.visible.Agree Value.Alike (e.eval s) (e.eval { s with scope }) := by
  cases e with
  | literal v =>
    rw [eval, eval]
    exact .ok rfl
  | range start stop =>
    rw [eval, eval]
    refine (agree_eval hhost h start).bind fun low low' hlow => ?_
    refine (agree_eval hhost h stop).bind fun high high' hhigh => ?_
    rw [← Setting.boundsError_eq hhost hlow hhigh]
    refine (Setting.agree_whole hhost _ hlow).bind fun first first' hfirst => ?_
    refine (Setting.agree_whole hhost _ hhigh).bind fun last last' hlast => ?_
    rw [hfirst, hlast]
    exact .ok rfl
  | lookup root path markup =>
    rw [eval, eval]
    refine (agree_evalRoot hhost h root).bind fun start start' hstart => ?_
    refine (agree_evalPath hhost h markup path hstart).bind fun v w hv => ?_
    split
    · obtain rfl : w = .missing := hv.missing_iff.mp rfl
      exact Setting.agree_undefined h markup
    · next hfound =>
      split
      · exact absurd (hv.missing_iff.mpr rfl) hfound
      · exact .ok hv

theorem agree_evalRoot (hhost : s.host.IsDiscreet) (h : s.scope.visible = scope.visible)
    (root : Key) :
    Bond.visible.Agree Value.Alike (evalRoot s root) (evalRoot { s with scope } root) := by
  cases root with
  | name name =>
    rw [evalRoot, evalRoot]
    exact .ok (Scope.alike_find h name)
  | computed e =>
    rw [evalRoot, evalRoot]
    refine (agree_eval hhost h e).bind fun v w hv => ?_
    split
    · next name =>
      obtain rfl : w = .text name := (hv.text_iff name).mp rfl
      exact .ok (Scope.alike_find h name)
    · next hother =>
      split
      · next name => exact absurd ((hv.text_iff name).mpr rfl) (hother name)
      · exact .ok rfl

theorem agree_evalKey (hhost : s.host.IsDiscreet) (h : s.scope.visible = scope.visible)
    (key : Key) :
    Bond.visible.Agree Value.Alike (evalKey s key) (evalKey { s with scope } key) := by
  cases key with
  | name name =>
    rw [evalKey, evalKey]
    exact .ok rfl
  | computed e =>
    rw [evalKey, evalKey]
    exact agree_eval hhost h e

theorem agree_evalPath (hhost : s.host.IsDiscreet) (h : s.scope.visible = scope.visible)
    (markup : String) (path : List Key)
    {v w : Value} (hv : v.Alike w) :
    Bond.visible.Agree Value.Alike (evalPath s markup v path)
      (evalPath { s with scope } markup w path) := by
  cases path with
  | nil =>
    rw [evalPath, evalPath]
    exact .ok hv
  | cons key rest =>
    by_cases hmissing : v = .missing
    · have hmissing' := hv.missing_iff.mp hmissing
      rw [hmissing, hmissing', evalPath_missing, evalPath_missing]
      exact .ok rfl
    · have hmissing' : w ≠ .missing := fun hw => hmissing (hv.missing_iff.mpr hw)
      rw [evalPath_cons hmissing, evalPath_cons hmissing']
      refine (agree_evalKey hhost h key).bind fun k k' hk => ?_
      refine (Setting.agree_read hhost hv hk markup).bind fun next next' hnext => ?_
      exact agree_evalPath hhost h markup rest hnext

end

end Expr

/-! ## Conditions -/

theorem Operator.apply?_visible {host : Host} (hhost : host.IsDiscreet) (op : Operator)
    (v w : Value) : op.apply? host v.visible w.visible = op.apply? host v w := by
  cases op with
  | equal => exact congrArg some (Value.equals_visible hhost v w)
  | unequal => exact congrArg (fun b => some !b) (Value.equals_visible hhost v w)
  | differs => exact congrArg (fun b => some !b) (Value.equals_visible hhost v w)
  | compares c => exact Value.compare?_visible hhost c v w
  | contains => exact Value.contains?_visible hhost v w

theorem Setting.comparisonError_eq (hhost : s.host.IsDiscreet) (op : Operator)
    {v w v' w' : Value} (hv : v.Alike v') (hw : w.Alike w') :
    s.comparisonError op v w = Setting.comparisonError { s with scope } op v' w' := by
  unfold Setting.comparisonError
  rw [hv.congr (Value.literal?_visible hhost), hw.congr (Value.literal?_visible hhost),
    hv.congr Value.typeName_visible, hw.congr Value.typeName_visible]
  rfl

theorem Condition.agree_eval (hhost : s.host.IsDiscreet) (h : s.scope.visible = scope.visible)
    (c : Condition) : Bond.visible.Agree Eq (c.eval s) (c.eval { s with scope }) := by
  unfold Condition.eval
  refine (Expr.agree_eval hhost h c.left).bind fun v v' hv => ?_
  split
  · rw [hv.congr Value.isTruthy_visible]
    exact .ok rfl
  · next op e htest =>
    refine (Expr.agree_eval hhost h e).bind fun w w' hw => ?_
    have happly : op.apply? s.host v w = op.apply? s.host v' w' := by
      rw [← op.apply?_visible hhost v, ← op.apply?_visible hhost v', hv, hw]
    rw [happly]
    cases op.apply? s.host v' w' with
    | some holds => exact .ok rfl
    | none => exact .error (Setting.comparisonError_eq hhost op hv hw)

theorem agree_evalChain (hhost : s.host.IsDiscreet) (h : s.scope.visible = scope.visible)
    (first : Condition)
    (rest : List (Connector × Condition)) :
    Bond.visible.Agree Eq (evalChain s first rest) (evalChain { s with scope } first rest) := by
  induction rest generalizing first with
  | nil => exact first.agree_eval hhost h
  | cons link rest ih =>
    obtain ⟨connector, next⟩ := link
    rw [evalChain, evalChain]
    refine (ih next).bind fun later later' hlater => ?_
    refine (first.agree_eval hhost h).bind fun holds holds' hholds => ?_
    rw [hlater, hholds]
    exact .ok rfl

end

end Stencil
