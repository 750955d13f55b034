import Mathlib.Data.List.Basic

/-!
# Ledgers of requested places

Places are requested, are held by owners for some time and are settled in the
end. The ledger is balanced when exactly the places that are requested and not
settled have an owner, and only one. Requesting free places, giving places
back and settling them keep it balanced.
-/

namespace Ledgers

universe u
variable {Place : Type u} {requested settled piece : Place → Prop} {owners owners' : Place → Nat}

/-- The number of owners of every place is right. -/
structure Balanced (requested settled : Place → Prop) (owners : Place → Nat) : Prop where
  owned : ∀ p, requested p → ¬ settled p → owners p = 1
  free : ∀ p, ¬ requested p → owners p = 0
  done : ∀ p, settled p → owners p = 0
  settled_requested : ∀ p, settled p → requested p

section

variable (balanced : Balanced requested settled owners)
include balanced

theorem balanced_le_one (p : Place) : owners p ≤ 1 := by
  by_cases asked : requested p
  · by_cases done : settled p
    · have := balanced.done p done
      omega
    · have := balanced.owned p asked done
      omega
  · have := balanced.free p asked
    omega

theorem balanced_owned {p : Place} (held : 0 < owners p) : requested p ∧ ¬ settled p := by
  constructor
  · by_contra free
    have := balanced.free p free
    omega
  · intro done
    have := balanced.done p done
    omega

variable {requested' : Place → Prop}

theorem balanced_request (fresh : ∀ p, piece p → ¬ requested p)
    (asked : ∀ p, requested' p ↔ piece p ∨ requested p)
    (more : ∀ p, piece p → owners' p = owners p + 1) (same : ∀ p, ¬ piece p → owners' p = owners p)
    :
    Balanced requested' settled owners' := by
  constructor
  · intro p wanted notSettled
    by_cases new : piece p
    · have := balanced.free p (fresh p new)
      have := more p new
      omega
    · rw [same p new]
      rcases (asked p).mp wanted with inside | old
      · exact absurd inside new
      · exact balanced.owned p old notSettled
  · intro p free
    rw [asked, not_or] at free
    rw [same p free.1]
    exact balanced.free p free.2
  · intro p done
    have old := balanced.settled_requested p done
    rw [same p fun new => fresh p new old]
    exact balanced.done p done
  · intro p done
    exact (asked p).mpr (.inr (balanced.settled_requested p done))

theorem balanced_release (left : ∀ p, requested' p ↔ requested p ∧ ¬ piece p)
    (less : ∀ p, piece p → owners p = owners' p + 1) (same : ∀ p, ¬ piece p → owners p = owners' p)
    :
    Balanced requested' settled owners' := by
  constructor
  · intro p wanted notSettled
    obtain ⟨old, outside⟩ := (left p).mp wanted
    rw [← same p outside]
    exact balanced.owned p old notSettled
  · intro p free
    by_cases inside : piece p
    · have := less p inside
      have := balanced_le_one balanced p
      omega
    · rw [← same p inside]
      exact balanced.free p fun old => free ((left p).mpr ⟨old, inside⟩)
  · intro p done
    have nothing := balanced.done p done
    by_cases inside : piece p
    · have := less p inside
      omega
    · rw [← same p inside, nothing]
  · intro p done
    refine (left p).mpr ⟨balanced.settled_requested p done, ?_⟩
    intro inside
    have := balanced.done p done
    have := less p inside
    omega

theorem balanced_settle {settled' : Place → Prop} (settles : ∀ p, settled' p ↔ piece p ∨ settled p)
    (less : ∀ p, piece p → owners p = owners' p + 1)
    (same : ∀ p, ¬ piece p → owners p = owners' p) :
    Balanced requested settled' owners' := by
  constructor
  · intro p wanted notSettled
    rw [settles, not_or] at notSettled
    rw [← same p notSettled.1]
    exact balanced.owned p wanted notSettled.2
  · intro p free
    have nothing := balanced.free p free
    by_cases inside : piece p
    · have := less p inside
      omega
    · rw [← same p inside, nothing]
  · intro p done
    by_cases inside : piece p
    · have := less p inside
      have := balanced_le_one balanced p
      omega
    · rcases (settles p).mp done with held | old
      · exact absurd held inside
      · rw [← same p inside]
        exact balanced.done p old
  · intro p done
    rcases (settles p).mp done with held | old
    · have := less p held
      exact (balanced_owned balanced (by omega)).1
    · exact balanced.settled_requested p old

end

end Ledgers
