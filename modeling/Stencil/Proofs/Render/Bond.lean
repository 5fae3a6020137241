import Stencil.Session

/-!
# Two renderings side by side

Two actions are tied to one another if something that holds between the sessions in which they begin
holds again between those in which they end, however they end. Which sessions, errors and values
belong together is left open here; how actions are put together has no part in it.
-/

namespace Stencil.Render

/-- Which sessions of two renderings belong together, and which errors. -/
structure Bond where
  sessions : Session → Session → Prop
  errors : Error → Error → Prop

namespace Bond

section

variable {α β : Type} (B : Bond) (R : α → β → Prop)

/-- Both are values that belong together, or errors that do. -/
inductive Agree : Except Error α → Except Error β → Prop
  | ok {a : α} {b : β} : R a b → Agree (.ok a) (.ok b)
  | error {e e' : Error} : B.errors e e' → Agree (.error e) (.error e')

/-- Both actions end well, or both with an error, and their sessions belong together still. -/
inductive Ends : EStateM.Result Error Session α → EStateM.Result Error Session β → Prop
  | ok {a : α} {b : β} {s s' : Session} : R a b → B.sessions s s' → Ends (.ok a s) (.ok b s')
  | error {e e' : Error} {s s' : Session} : B.errors e e' → B.sessions s s' →
    Ends (.error e s) (.error e' s')

def Ties (x : Render α) (y : Render β) : Prop :=
  ∀ ⦃s s'⦄, B.sessions s s' → B.Ends R (x s) (y s')

end

/-! ## Evaluations -/

section

variable {B : Bond} {α β γ δ : Type} {R : α → β → Prop} {S : γ → δ → Prop}

theorem Agree.bind {x : Except Error α} {y : Except Error β} {f : α → Except Error γ}
    {g : β → Except Error δ} (hxy : B.Agree R x y) (hfg : ∀ a b, R a b → B.Agree S (f a) (g b)) :
    B.Agree S (x >>= f) (y >>= g) := by
  rcases hxy with hab | he
  · exact hfg _ _ hab
  · exact .error he

theorem Agree.map {x : Except Error α} {y : Except Error β} {f : α → γ} {g : β → δ}
    (hxy : B.Agree R x y) (hfg : ∀ a b, R a b → S (f a) (g b)) :
    B.Agree S (x.map f) (y.map g) := by
  rcases hxy with hab | he
  · exact .ok (hfg _ _ hab)
  · exact .error he

/-! ## Actions -/

theorem Ties.andThen {x : Render α} {y : Render β} {f : α → Render γ} {g : β → Render δ}
    (hxy : B.Ties R x y) (hfg : ∀ a b, R a b → B.Ties S (f a) (g b)) :
    B.Ties S (x >>= f) (y >>= g) := by
  intro s s' h
  have hends := hxy h
  show B.Ends S (EStateM.bind x f s) (EStateM.bind y g s')
  unfold EStateM.bind
  generalize x s = r at hends ⊢
  generalize y s' = r' at hends ⊢
  rcases hends with ⟨hab, hs⟩ | ⟨he, hs⟩
  · exact hfg _ _ hab hs
  · exact .error he hs

theorem ties_pure {a : α} {b : β} (h : R a b) : B.Ties R (pure a) (pure b) := fun _ _ hs => .ok h hs

theorem ties_throw {e e' : Error} (h : B.errors e e') :
    B.Ties R (throw e : Render α) (throw e' : Render β) := fun _ _ hs => .error h hs

theorem ties_modify {f g : Session → Session}
    (h : ∀ ⦃s s'⦄, B.sessions s s' → B.sessions (f s) (g s')) :
    B.Ties Eq (modify f : Render PUnit) (modify g) := fun _ _ hs => .ok rfl (h hs)

theorem ties_looking {f : Session → Render α} {g : Session → Render β}
    (h : ∀ s s', B.sessions s s' → B.Ties R (f s) (g s')) :
    B.Ties R (get >>= f) (get >>= g) := fun s s' hs => h s s' hs hs

theorem ties_evaluating {env env' : Environment} {line line' : Option Int}
    {eval : Setting → Except Error α} {eval' : Setting → Except Error β}
    (h : ∀ ⦃s s'⦄, B.sessions s s' →
      B.Agree R (eval (s.setting env line)) (eval' (s'.setting env' line'))) :
    B.Ties R (evaluating env line eval) (evaluating env' line' eval') := by
  intro s s' hs
  have hagree := h hs
  unfold evaluating
  generalize eval _ = r at hagree ⊢
  generalize eval' _ = r' at hagree ⊢
  rcases hagree with hab | he
  · exact .ok hab hs
  · exact .error he hs

theorem Ties.bracket {x : Render α} {y : Render β} (hxy : B.Ties R x y)
    (enter enter' : Session → Session) (leave leave' : Session → Session → Session)
    (henter : ∀ ⦃s s'⦄, B.sessions s s' → B.sessions (enter s) (enter' s'))
    (hleave : ∀ ⦃s s'⦄, B.sessions s s' → ∀ ⦃t t'⦄, B.sessions t t' →
      B.sessions (leave s t) (leave' s' t')) :
    B.Ties R (fun s => ensuring (leave s) x (enter s))
      (fun s => ensuring (leave' s) y (enter' s)) := by
  intro s s' hs
  have hends := hxy (henter hs)
  show B.Ends R (ensuring (leave s) x (enter s)) (ensuring (leave' s') y (enter' s'))
  unfold ensuring
  generalize x (enter s) = r at hends ⊢
  generalize y (enter' s') = r' at hends ⊢
  rcases hends with ⟨hab, ht⟩ | ⟨he, ht⟩
  · exact .ok hab (hleave hs ht)
  · exact .error he (hleave hs ht)

/-- Sessions that belong together have the same text so far, and may be given another. -/
structure SharesOutput (B : Bond) : Prop where
  eq : ∀ ⦃s s'⦄, B.sessions s s' → s.output = s'.output
  set : ∀ ⦃s s'⦄, B.sessions s s' → ∀ text,
    B.sessions { s with output := text } { s' with output := text }

theorem Ties.capture (hout : B.SharesOutput) {x y : Render Unit} (hxy : B.Ties Eq x y) :
    B.Ties Eq (Render.capture x) (Render.capture y) := by
  intro s s' hs
  have hends := hxy (hout.set hs "")
  unfold Render.capture
  rw [← hout.eq hs]
  generalize x _ = r at hends ⊢
  generalize y _ = r' at hends ⊢
  rcases hends with ⟨-, ht⟩ | ⟨he, ht⟩
  · exact .ok (hout.eq ht) (hout.set ht s.output)
  · exact .error he (hout.set ht s.output)

theorem ties_write (hout : B.SharesOutput) (text : String) :
    B.Ties Eq (write text) (write text) := by
  apply ties_modify
  intro s s' hs
  have hset := hout.set hs (s.output ++ text)
  rwa [show s'.output = s.output from (hout.eq hs).symm]

end

end Bond

end Stencil.Render
