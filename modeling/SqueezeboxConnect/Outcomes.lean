import Mathlib.Data.List.Basic

/-!
# Pre- and postconditions for computations that may abort

A computation in `Except` either returns or aborts. `Yields` gives one
postcondition for each of the two outcomes; the rules below let the
specification of a sequence be put together from those of its parts.
-/

namespace Outcomes

universe u v w
variable {Abort : Type u} {A : Type v} {B : Type v}

/-- What holds of the returned value, and what holds of the abort. -/
def Yields (x : Except Abort A) (returned : A → Prop) (aborted : Abort → Prop) : Prop :=
  match x with
  | .ok a => returned a
  | .error e => aborted e

@[simp] theorem yields_ok_bind (a : A) (f : A → Except Abort B) (returned : B → Prop)
    (aborted : Abort → Prop) :
    Yields (.ok a >>= f) returned aborted ↔ Yields (f a) returned aborted := Iff.rfl

variable {x : Except Abort A} {f : A → Except Abort B}

theorem ok_of_bind {b : B} (done : x.bind f = .ok b) : ∃ a, x = .ok a ∧ f a = .ok b := by
  cases x with
  | error e => cases done
  | ok a => exact ⟨a, rfl, done⟩

theorem map_eq_ok_iff {f : A → B} {b : B} : x.map f = .ok b ↔ ∃ a, x = .ok a ∧ f a = b := by
  cases x with
  | error e => simp [Except.map]
  | ok a => simp [Except.map]

/-- The rule for sequencing. -/
theorem yields_bind (middle : A → Prop) {returned : B → Prop} {aborted : Abort → Prop}
    (first : Yields x middle aborted) (rest : ∀ a, middle a → Yields (f a) returned aborted) :
    Yields (x >>= f) returned aborted := by
  cases x with
  | error e => exact first
  | ok a => exact rest a first

/-- The rule of consequence. -/
theorem yields_mono {returned returned' : A → Prop} {aborted aborted' : Abort → Prop}
    (h : Yields x returned aborted) (weaker : ∀ a, returned a → returned' a)
    (weakerAbort : ∀ e, aborted e → aborted' e) : Yields x returned' aborted' := by
  cases x with
  | error e => exact weakerAbort e h
  | ok a => exact weaker a h

/-- The computation does not abort. -/
def Returns (x : Except Abort A) : Prop := ∃ a, x = .ok a

@[simp] theorem returns_ok (a : A) : Returns (.ok a : Except Abort A) := ⟨a, rfl⟩

@[simp] theorem not_returns_error (e : Abort) : ¬ Returns (.error e : Except Abort A) := by
  rintro ⟨a, same⟩
  cases same

theorem returns_bind : Returns (x.bind f) ↔ ∃ a, x = .ok a ∧ Returns (f a) := by
  constructor
  · rintro ⟨b, done⟩
    obtain ⟨a, first, rest⟩ := ok_of_bind done
    exact ⟨a, first, b, rest⟩
  · rintro ⟨a, rfl, rest⟩
    exact rest

theorem returns_map {f : A → B} : Returns (x.map f) ↔ Returns x := by
  cases x with
  | error e => exact iff_of_false (not_returns_error e) (not_returns_error e)
  | ok a => exact iff_of_true (returns_ok (f a)) (returns_ok a)

theorem returns_bind_ok {f : A → B} : Returns (x.bind fun a => .ok (f a)) ↔ Returns x := by
  cases x with
  | error e => exact iff_of_false (not_returns_error e) (not_returns_error e)
  | ok a => exact iff_of_true (returns_ok (f a)) (returns_ok a)

end Outcomes
