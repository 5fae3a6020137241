import Stencil.Expr.Evaluation

/-!
# The parts of an expression that are evaluated

Evaluating an expression comes to some of its parts, and to nothing more after the first part that
fails. So an expression fails exactly as a part does that evaluation comes to.
-/

namespace Stencil

/-! ## Two evaluations in a row -/

section

variable {ε α β : Type} {x : Except ε α} {f : α → Except ε β} {a : α} {error : ε}

theorem except_bind_of_ok (h : x = .ok a) : (x >>= f) = f a := by
  rw [h]
  rfl

theorem exists_of_bind_eq_ok {b : β} (h : x >>= f = .ok b) : ∃ a, x = .ok a ∧ f a = .ok b := by
  cases x with
  | error e => cases h
  | ok a => exact ⟨a, rfl, h⟩

theorem except_bind_of_error (h : x = .error error) : (x >>= f) = .error error := by
  rw [h]
  rfl

theorem except_bind_eq_error :
    (x >>= f) = .error error ↔ x = .error error ∨ ∃ a, x = .ok a ∧ f a = .error error := by
  cases x with
  | ok a => simp [bind, Except.bind]
  | error e => simp [bind, Except.bind]

@[simp] theorem mapError_eq_ok {δ : Type} {f : ε → δ} : x.mapError f = .ok a ↔ x = .ok a := by
  cases x with
  | ok a' =>
    constructor
    · rintro ⟨⟩
      rfl
    · rintro ⟨⟩
      rfl
  | error e => exact ⟨nofun, nofun⟩

@[simp] theorem mapError_eq_error {δ : Type} {f : ε → δ} {d : δ} :
    x.mapError f = .error d ↔ ∃ e, x = .error e ∧ f e = d := by
  cases x with
  | ok a => exact ⟨nofun, nofun⟩
  | error e =>
    constructor
    · intro h
      exact ⟨e, rfl, Except.error.inj h⟩
    · rintro ⟨_, ⟨⟩, rfl⟩
      rfl

end

namespace Expr

/-! ## Parts -/

/-- From one value with a path, reading key by key leads to another value with the rest of it. -/
inductive Walks (s : Setting) (markup : String) : Value → List Key → Value → List Key → Prop
  | here (v : Value) (path : List Key) : Walks s markup v path v path
  | read {v k next v' : Value} {key : Key} {path path' : List Key} : v ≠ .missing →
    evalKey s key = .ok k → s.read markup v k = .ok next → Walks s markup next path v' path' →
    Walks s markup v (key :: path) v' path'

/-- In the setting `s`, evaluating the first expression comes to the second. -/
inductive Visits (s : Setting) : Expr → Expr → Prop
  | self (e : Expr) : Visits s e e
  | start {start stop e : Expr} : Visits s start e → Visits s (.range start stop) e
  | stop {start stop e : Expr} {low : Value} : start.eval s = .ok low → Visits s stop e →
    Visits s (.range start stop) e
  | root {root e : Expr} {path : List Key} {markup : String} : Visits s root e →
    Visits s (.lookup (.computed root) path markup) e
  | key {root : Key} {path rest : List Key} {markup : String} {v v' : Value} {key e : Expr} :
    evalRoot s root = .ok v → Walks s markup v path v' (.computed key :: rest) → v' ≠ .missing →
    Visits s key e → Visits s (.lookup root path markup) e

/-- A lookup all parts of which can be evaluated, but for which there is no value. -/
def FindsNothing (s : Setting) : Expr → Prop
  | .lookup root path markup =>
    ∃ v, evalRoot s root = .ok v ∧ evalPath s markup v path = .ok .missing
  | _ => False

/-- The expression fails though all its parts that are evaluated have a value. -/
inductive Fails (s : Setting) : Expr → Error → Prop
  | low {start stop : Expr} {low high : Value} {error : Error} : start.eval s = .ok low →
    stop.eval s = .ok high → s.whole (s.boundsError low high) low = .error error →
    Fails s (.range start stop) error
  | high {start stop : Expr} {low high : Value} {first : Int} {error : Error} :
    start.eval s = .ok low → stop.eval s = .ok high →
    s.whole (s.boundsError low high) low = .ok first →
    s.whole (s.boundsError low high) high = .error error → Fails s (.range start stop) error
  | reading {root key : Key} {path rest : List Key} {markup : String} {v v' k : Value}
    {fault : Value.ReadFault} : evalRoot s root = .ok v → Walks s markup v path v' (key :: rest) →
    v' ≠ .missing → evalKey s key = .ok k → v'.read s.host k = .error fault →
    Fails s (.lookup root path markup) (s.readError markup v' k fault)
  | undefined {root : Key} {path : List Key} {markup : String} :
    FindsNothing s (.lookup root path markup) → s.strict = true →
    Fails s (.lookup root path markup) (.undefined ⟨markup, s.template, s.line, s.scope.names⟩)

/-! ## Evaluation, step by step -/

section

variable {s : Setting} {markup : String} {error : Error}

theorem evalPath_cons {v : Value} (hv : v ≠ .missing) (key : Key) (path : List Key) :
    evalPath s markup v (key :: path) =
      (evalKey s key >>= fun k => s.read markup v k >>= fun next =>
        evalPath s markup next path) := by
  rw [evalPath]
  · rfl
  · exact hv

theorem evalPath_missing (path : List Key) : evalPath s markup .missing path = .ok .missing := by
  cases path <;> rfl

theorem evalPath_of_walks {v v' : Value} {path path' : List Key}
    (h : Walks s markup v path v' path') :
    evalPath s markup v path = evalPath s markup v' path' := by
  induction h with
  | here v path => rfl
  | read hv hkey hread _ ih =>
    rw [evalPath_cons hv, except_bind_of_ok hkey, except_bind_of_ok hread]
    exact ih

theorem eval_lookup {root : Key} {path : List Key} {v : Value} (hroot : evalRoot s root = .ok v) :
    eval s (.lookup root path markup) =
      match evalPath s markup v path with
      | .ok .missing => s.undefined markup
      | found => found := by
  rw [eval, except_bind_of_ok hroot]
  cases evalPath s markup v path with
  | error error => rfl
  | ok found => cases found <;> rfl

theorem eval_range_of_ok {start stop : Expr} {low high : Value} (hlow : start.eval s = .ok low)
    (hhigh : stop.eval s = .ok high) :
    eval s (.range start stop) =
      (s.whole (s.boundsError low high) low >>= fun first =>
        s.whole (s.boundsError low high) high >>= fun last => pure (.range first (last + 1))) := by
  rw [eval, except_bind_of_ok hlow, except_bind_of_ok hhigh]

/-! ## Failures -/

theorem eval_of_fails {e : Expr} (h : e.Fails s error) : e.eval s = .error error := by
  cases h with
  | low hlow hhigh hwhole =>
    rw [eval_range_of_ok hlow hhigh]
    exact except_bind_of_error hwhole
  | high hlow hhigh hfirst hwhole =>
    rw [eval_range_of_ok hlow hhigh, except_bind_of_ok hfirst]
    exact except_bind_of_error hwhole
  | reading hroot hwalks hv hkey hread =>
    rw [eval_lookup hroot, evalPath_of_walks hwalks, evalPath_cons hv, except_bind_of_ok hkey]
    simp only [Setting.read, hread, Except.bind, bind]
  | undefined hnothing hstrict =>
    obtain ⟨v, hroot, hpath⟩ := hnothing
    rw [eval_lookup hroot, hpath]
    show s.undefined _ = _
    unfold Setting.undefined
    rw [if_pos hstrict]

theorem eval_of_visits {e e' : Expr} (h : e.Visits s e') (herror : e'.eval s = .error error) :
    e.eval s = .error error := by
  induction h with
  | self e => exact herror
  | start _ ih =>
    rw [eval]
    exact except_bind_of_error (ih herror)
  | stop hlow _ ih =>
    rw [eval, except_bind_of_ok hlow]
    exact except_bind_of_error (ih herror)
  | root _ ih =>
    rw [eval, evalRoot]
    exact except_bind_of_error (except_bind_of_error (ih herror))
  | @key root path rest markup v v' key e hroot hwalks hv _ ih =>
    have hkey : evalKey s (.computed key) = .error error := ih herror
    rw [eval_lookup hroot, evalPath_of_walks hwalks, evalPath_cons hv, except_bind_of_error hkey]

theorem read_eq_error {v k : Value} (h : s.read markup v k = .error error) :
    ∃ fault, v.read s.host k = .error fault ∧ error = s.readError markup v k fault := by
  unfold Setting.read at h
  cases hread : v.read s.host k with
  | ok found =>
    rw [hread] at h
    cases h
  | error fault =>
    rw [hread] at h
    cases h
    exact ⟨fault, rfl, rfl⟩

theorem mem_of_walks {v v' : Value} {path path' : List Key} (h : Walks s markup v path v' path')
    {key : Key} (hkey : key ∈ path') : key ∈ path := by
  induction h with
  | here v path => exact hkey
  | read _ _ _ _ ih => exact List.mem_cons_of_mem _ (ih hkey)

theorem walks_of_error {path : List Key} {v : Value} (h : evalPath s markup v path = .error error) :
    ∃ v' key rest, Walks s markup v path v' (key :: rest) ∧ v' ≠ .missing ∧
      (evalKey s key = .error error ∨
        ∃ k, evalKey s key = .ok k ∧ s.read markup v' k = .error error) := by
  induction path generalizing v with
  | nil => cases v <;> cases h
  | cons key path ih =>
    have hv : v ≠ .missing := by
      rintro rfl
      rw [evalPath_missing] at h
      cases h
    rw [evalPath_cons hv] at h
    obtain hkey | ⟨k, hkey, h⟩ := except_bind_eq_error.mp h
    · exact ⟨v, key, path, .here v _, hv, .inl hkey⟩
    obtain hread | ⟨next, hread, h⟩ := except_bind_eq_error.mp h
    · exact ⟨v, key, path, .here v _, hv, .inr ⟨k, hkey, hread⟩⟩
    obtain ⟨v', key', rest, hwalks, hrest⟩ := ih h
    exact ⟨v', key', rest, .read hv hkey hread hwalks, hrest⟩

theorem range_of_error {start stop : Expr} (h : eval s (.range start stop) = .error error) :
    eval s start = .error error ∨
      (∃ low, eval s start = .ok low ∧ eval s stop = .error error) ∨
      (Expr.range start stop).Fails s error := by
  rw [eval] at h
  obtain hstart | ⟨low, hlow, h⟩ := except_bind_eq_error.mp h
  · exact .inl hstart
  obtain hstop | ⟨high, hhigh, h⟩ := except_bind_eq_error.mp h
  · exact .inr (.inl ⟨low, hlow, hstop⟩)
  obtain hfirst | ⟨first, hfirst, h⟩ := except_bind_eq_error.mp h
  · exact .inr (.inr (.low hlow hhigh hfirst))
  obtain hlast | ⟨last, hlast, h⟩ := except_bind_eq_error.mp h
  · exact .inr (.inr (.high hlow hhigh hfirst hlast))
  · cases h

theorem root_of_error {root : Key} (h : evalRoot s root = .error error) :
    ∃ e, root = .computed e ∧ eval s e = .error error := by
  cases root with
  | name name => cases h
  | computed e =>
    rw [evalRoot] at h
    obtain he | ⟨v, -, h⟩ := except_bind_eq_error.mp h
    · exact ⟨e, rfl, he⟩
    · cases v <;> cases h

theorem undefined_of_error (h : s.undefined markup = .error error) :
    s.strict = true ∧ error = .undefined ⟨markup, s.template, s.line, s.scope.names⟩ := by
  unfold Setting.undefined at h
  split at h
  · next hstrict =>
    cases h
    exact ⟨hstrict, rfl⟩
  · cases h

theorem lookup_of_error {root : Key} {path : List Key}
    (h : eval s (.lookup root path markup) = .error error) :
    (∃ e, root = .computed e ∧ eval s e = .error error) ∨
      (∃ v v' key rest, evalRoot s root = .ok v ∧
        Walks s markup v path v' (.computed key :: rest) ∧ v' ≠ .missing ∧
        eval s key = .error error) ∨
      (Expr.lookup root path markup).Fails s error := by
  cases hroot : evalRoot s root with
  | error e =>
    rw [eval, hroot] at h
    cases h
    exact .inl (root_of_error hroot)
  | ok v =>
    rw [eval_lookup hroot] at h
    cases hpath : evalPath s markup v path with
    | error e =>
      rw [hpath] at h
      cases h
      obtain ⟨v', key, rest, hwalks, hv, hkey | ⟨k, hkey, hread⟩⟩ := walks_of_error hpath
      · cases key with
        | name name => cases hkey
        | computed key => exact .inr (.inl ⟨v, v', key, rest, rfl, hwalks, hv, hkey⟩)
      · obtain ⟨fault, hfault, rfl⟩ := read_eq_error hread
        exact .inr (.inr (.reading hroot hwalks hv hkey hfault))
    | ok found =>
      rw [hpath] at h
      cases found with
      | missing =>
        obtain ⟨hstrict, rfl⟩ := undefined_of_error h
        exact .inr (.inr (.undefined ⟨v, hroot, hpath⟩ hstrict))
      | _ => cases h

theorem sizeOf_lt_of_mem {key : Expr} {path : List Key} (h : .computed key ∈ path) :
    sizeOf key < sizeOf path := by
  have hkey : sizeOf (Key.computed key) < sizeOf path := List.sizeOf_lt_of_mem h
  rw [Key.computed.sizeOf_spec] at hkey
  omega

theorem exists_visits_of_error (e : Expr) (h : e.eval s = .error error) :
    ∃ e', e.Visits s e' ∧ e'.Fails s error := by
  -- Keys are expressions inside of a list, so the recursion is on the size of expressions.
  match e, h with
  | .literal v, h => cases h
  | .range start stop, h =>
    obtain hstart | ⟨low, hlow, hstop⟩ | hfails := range_of_error h
    · obtain ⟨e', hvisits, hfails⟩ := exists_visits_of_error start hstart
      exact ⟨e', .start hvisits, hfails⟩
    · obtain ⟨e', hvisits, hfails⟩ := exists_visits_of_error stop hstop
      exact ⟨e', .stop hlow hvisits, hfails⟩
    · exact ⟨_, .self _, hfails⟩
  | .lookup root path markup, h =>
    obtain ⟨e, hroot, he⟩ | ⟨v, v', key, rest, hroot, hwalks, hv, hkey⟩ | hfails :=
      lookup_of_error h
    · have hsmaller : sizeOf e < sizeOf root := by simp [hroot]
      obtain ⟨e', hvisits, hfails⟩ := exists_visits_of_error e he
      exact ⟨e', hroot ▸ .root hvisits, hfails⟩
    · have hsmaller : sizeOf key < sizeOf path :=
        sizeOf_lt_of_mem (mem_of_walks hwalks List.mem_cons_self)
      obtain ⟨e', hvisits, hfails⟩ := exists_visits_of_error key hkey
      exact ⟨e', .key hroot hwalks hv hvisits, hfails⟩
    · exact ⟨_, .self _, hfails⟩
termination_by sizeOf e
decreasing_by
  all_goals simp_wf
  all_goals omega

/-- An expression fails exactly as a part does that its evaluation comes to. -/
theorem eval_eq_error_iff {e : Expr} :
    e.eval s = .error error ↔ ∃ e', e.Visits s e' ∧ e'.Fails s error := by
  constructor
  · intro h
    exact exists_visits_of_error e h
  · rintro ⟨e', hvisits, hfails⟩
    exact eval_of_visits hvisits (eval_of_fails hfails)

end

end Expr

end Stencil
