import SqueezeboxConnect.Outcomes

/-!
# Results in computations that may abort

A call returns a value or an error, or it does not return at all. The first two
are both results; `Settles` says that one of them comes back. The rules follow
the two ways a sequence is put together: from calls whose error is passed on,
and from steps that have no error but may abort.
-/

namespace Fallible

open Outcomes

variable {Abort Error A B : Type}

abbrev Call (Abort Error A : Type) := ExceptT Error (Except Abort) A

/-- A result whose error is passed on. -/
def result (r : Except Error A) : Call Abort Error A := ExceptT.mk (.ok r)

/-- A step that cannot fail but may abort. -/
def guarded (x : Except Abort A) : Call Abort Error A := ExceptT.lift x

@[simp] theorem guarded_ok_bind (a : A) (f : A → Call Abort Error B) :
    (guarded (.ok a) >>= f : Call Abort Error B) = f a := rfl

@[simp] theorem result_ok_bind (a : A) (f : A → Call Abort Error B) :
    (result (.ok a) >>= f : Call Abort Error B) = f a := rfl

/-- A value or an error comes back. -/
def Settles (x : Call Abort Error A) : Prop := Returns x.run

@[simp] theorem settles_pure (a : A) : Settles (pure a : Call Abort Error A) := ⟨.ok a, rfl⟩

@[simp] theorem settles_throw (e : Error) : Settles (throw e : Call Abort Error A) :=
  ⟨.error e, rfl⟩

@[simp] theorem settles_result_bind (r : Except Error A) (f : A → Call Abort Error B) :
    Settles (result r >>= f) ↔ ∀ a, r = .ok a → Settles (f a) := by
  cases r with
  | error e =>
    refine ⟨?_, fun _ => ⟨.error e, rfl⟩⟩
    rintro - a same
    cases same
  | ok a =>
    refine ⟨fun settles b same => ?_, fun all => all a rfl⟩
    cases same
    exact settles

@[simp] theorem settles_guarded_bind (x : Except Abort A) (f : A → Call Abort Error B) :
    Settles (guarded x >>= f) ↔ ∃ a, x = .ok a ∧ Settles (f a) := by
  cases x with
  | error e =>
    constructor
    · rintro ⟨r, done⟩
      cases done
    · rintro ⟨a, same, -⟩
      cases same
  | ok a =>
    refine ⟨fun settles => ⟨a, rfl, settles⟩, ?_⟩
    rintro ⟨b, same, settles⟩
    cases same
    exact settles

/-- A call in a sequence: it settles, and so does the rest if there is a value. -/
theorem settles_bind {x : Call Abort Error A} {f : A → Call Abort Error B} :
    Settles (x >>= f) ↔ Settles x ∧ ∀ a, x.run = .ok (.ok a) → Settles (f a) := by
  change Except Abort (Except Error A) at x
  rcases x with abort | error | a
  · constructor
    · rintro ⟨r, done⟩
      cases done
    · rintro ⟨⟨r, done⟩, -⟩
      cases done
  · refine ⟨fun _ => ⟨⟨.error error, rfl⟩, ?_⟩, fun _ => ⟨.error error, rfl⟩⟩
    intro a same
    cases same
  · refine ⟨fun settles => ⟨⟨.ok a, rfl⟩, ?_⟩, fun h => h.2 a rfl⟩
    intro b same
    cases same
    exact settles

end Fallible
