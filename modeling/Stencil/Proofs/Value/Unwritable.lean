import Mathlib.Algebra.Group.Nat.Defs
import Stencil.Value.Printing

/-!
# Values without a text

A value has no text if there is a whole number in it that has too many digits, or an object that
shows nothing. A text has all its characters, whatever it is.
-/

namespace Stencil

def IsLong (n : Int) : Prop := 10 ^ maxDigits ≤ n.natAbs

theorem length_toDigits_le_maxDigits {n : Nat} :
    (Nat.toDigits 10 n).length ≤ maxDigits ↔ n < 10 ^ maxDigits :=
  Nat.length_toDigits_le_iff (by decide) (by decide)

theorem intText?_eq_none_iff {n : Int} : intText? n = none ↔ IsLong n := by
  simp [intText?, IsLong, length_toDigits_le_maxDigits]

theorem both_eq_none_iff {α β γ : Type} {x : Option α} {y : Option β} {f : α → β → γ} :
    (do
      let a ← x
      let b ← y
      return f a b) = none ↔ x = none ∨ y = none := by
  cases x <;> cases y <;> simp

theorem LoopRecord.text?_eq_none_iff {l : LoopRecord} :
    l.text? = none ↔ IsLong l.index ∨ IsLong l.length := by
  unfold text?
  rw [both_eq_none_iff, intText?_eq_none_iff, intText?_eq_none_iff]

namespace Value

/-! ## In messages -/

/-- What no message can show. -/
inductive IsUnwritable (host : Host) : Value → Prop
  | int {n : Int} : IsLong n → IsUnwritable host (.int n)
  | list {items : List Value} {v : Value} : v ∈ items → IsUnwritable host v →
    IsUnwritable host (.list items)
  | tuple {items : List Value} {v : Value} : v ∈ items → IsUnwritable host v →
    IsUnwritable host (.tuple items)
  | key {entries : List (Value × Value)} {entry : Value × Value} : entry ∈ entries →
    IsUnwritable host entry.1 → IsUnwritable host (.map entries)
  | entry {entries : List (Value × Value)} {entry : Value × Value} : entry ∈ entries →
    IsUnwritable host entry.2 → IsUnwritable host (.map entries)
  | range {start stop : Int} : IsLong start ∨ IsLong stop → IsUnwritable host (.range start stop)
  | loop {l : LoopRecord} : IsLong l.index ∨ IsLong l.length → IsUnwritable host (.loop l)
  | object {id : Nat} {className : String} {attributes : List (String × Attribute)} :
    host.literal? (.object id className attributes) = none →
    IsUnwritable host (.object id className attributes)

section

variable {host : Host}

mutual

theorem literal?_eq_none_iff (v : Value) : v.literal? host = none ↔ v.IsUnwritable host := by
  cases v with
  | int n =>
    refine intText?_eq_none_iff.trans ⟨.int, fun h => ?_⟩
    cases h with
    | int h => exact h
  | list items =>
    rw [literal?, Option.map_eq_none_iff, literals?_eq_none_iff items]
    constructor
    · rintro ⟨v, hv, h⟩
      exact .list hv h
    · intro h
      cases h with
      | list hv h => exact ⟨_, hv, h⟩
  | tuple items =>
    rw [literal?, Option.map_eq_none_iff, literals?_eq_none_iff items]
    constructor
    · rintro ⟨v, hv, h⟩
      exact .tuple hv h
    · intro h
      cases h with
      | tuple hv h => exact ⟨_, hv, h⟩
  | map entries =>
    rw [literal?, Option.map_eq_none_iff, entryLiterals?_eq_none_iff entries]
    constructor
    · rintro ⟨entry, hentry, h | h⟩
      · exact .key hentry h
      · exact .entry hentry h
    · intro h
      cases h with
      | key hentry h => exact ⟨_, hentry, .inl h⟩
      | entry hentry h => exact ⟨_, hentry, .inr h⟩
  | range start stop =>
    rw [literal?, rangeText?, both_eq_none_iff, intText?_eq_none_iff, intText?_eq_none_iff]
    refine ⟨.range, fun h => ?_⟩
    cases h with
    | range h => exact h
  | loop l =>
    rw [literal?, LoopRecord.text?_eq_none_iff]
    refine ⟨.loop, fun h => ?_⟩
    cases h with
    | loop h => exact h
  | object id className attributes =>
    refine ⟨.object, fun h => ?_⟩
    cases h with
    | object h => exact h
  | _ => exact ⟨nofun, nofun⟩

theorem literals?_eq_none_iff (vs : List Value) :
    literals? host vs = none ↔ ∃ v ∈ vs, v.IsUnwritable host := by
  match vs with
  | [] => exact ⟨nofun, by rintro ⟨v, hv, -⟩; cases hv⟩
  | v :: vs =>
    rw [literals?, both_eq_none_iff, literal?_eq_none_iff v, literals?_eq_none_iff vs]
    simp only [List.mem_cons, exists_eq_or_imp]

theorem entryLiterals?_eq_none_iff (entries : List (Value × Value)) :
    entryLiterals? host entries = none ↔
      ∃ entry ∈ entries, entry.1.IsUnwritable host ∨ entry.2.IsUnwritable host := by
  match entries with
  | [] => exact ⟨nofun, by rintro ⟨entry, hentry, -⟩; cases hentry⟩
  | (key, v) :: rest =>
    simp only [List.mem_cons, exists_eq_or_imp]
    rw [entryLiterals?, ← literal?_eq_none_iff key, ← literal?_eq_none_iff v,
      ← entryLiterals?_eq_none_iff rest]
    cases literal? host key <;> cases literal? host v <;> cases entryLiterals? host rest <;> simp

end

/-! ## In the output -/

/-- What cannot be written to the output, where lists and tuples are written element by element. -/
inductive HasNoOutput (host : Host) : Value → Prop
  | list {items : List Value} {v : Value} : v ∈ items → HasNoOutput host v →
    HasNoOutput host (.list items)
  | tuple {items : List Value} {v : Value} : v ∈ items → HasNoOutput host v →
    HasNoOutput host (.tuple items)
  | object {id : Nat} {className : String} {attributes : List (String × Attribute)} :
    host.text? (.object id className attributes) = none →
    HasNoOutput host (.object id className attributes)
  | single {v : Value} : v.elements? = none → v.isObject = false → v.IsUnwritable host →
    HasNoOutput host v

theorem hasNoOutput_single_iff {v : Value} (helements : v.elements? = none)
    (hobject : v.isObject = false) : v.HasNoOutput host ↔ v.IsUnwritable host := by
  constructor
  · intro h
    cases h with
    | list => cases helements
    | tuple => cases helements
    | object => cases hobject
    | single _ _ h => exact h
  · exact .single helements hobject

mutual

theorem output?_eq_none_iff (v : Value) : v.output? host = none ↔ v.HasNoOutput host := by
  cases v with
  | list items =>
    rw [output?, outputs?_eq_none_iff items]
    constructor
    · rintro ⟨v, hv, h⟩
      exact .list hv h
    · intro h
      cases h with
      | list hv h => exact ⟨_, hv, h⟩
      | single helements => cases helements
  | tuple items =>
    rw [output?, outputs?_eq_none_iff items]
    constructor
    · rintro ⟨v, hv, h⟩
      exact .tuple hv h
    · intro h
      cases h with
      | tuple hv h => exact ⟨_, hv, h⟩
      | single helements => cases helements
  | object id className attributes =>
    refine ⟨.object, fun h => ?_⟩
    cases h with
    | object h => exact h
    | single _ hobject => cases hobject
  | nil | bool b | text s =>
    refine iff_of_false nofun fun h => ?_
    cases (hasNoOutput_single_iff rfl rfl).mp h
  | _ => exact (literal?_eq_none_iff _).trans (hasNoOutput_single_iff rfl rfl).symm

theorem outputs?_eq_none_iff (vs : List Value) :
    outputs? host vs = none ↔ ∃ v ∈ vs, v.HasNoOutput host := by
  match vs with
  | [] => exact ⟨nofun, by rintro ⟨v, hv, -⟩; cases hv⟩
  | v :: vs =>
    rw [outputs?, both_eq_none_iff, output?_eq_none_iff v, outputs?_eq_none_iff vs]
    simp only [List.mem_cons, exists_eq_or_imp]

end

end

end Value

end Stencil
