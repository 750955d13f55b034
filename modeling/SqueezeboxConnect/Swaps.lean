import Mathlib.Data.List.Basic
import Mathlib.Logic.Equiv.Basic

/-!
# Swaps of a list

Exchanging two places of a list, and undoing a series of such exchanges by
making them once more from the last to the first.
-/

namespace Swaps

universe u
variable {α : Type u} (xs : List α)

/-- Exchange two places. Where one of them is outside, nothing happens. -/
def swap (i j : Nat) : List α :=
  match xs[i]?, xs[j]? with
  | some a, some b => (xs.set i b).set j a
  | _, _ => xs

@[simp] theorem length_swap (i j : Nat) : (swap xs i j).length = xs.length := by
  rw [swap]
  split <;> simp

theorem swap_perm (i j : Nat) : (swap xs i j).Perm xs := by
  rw [swap]
  split
  · rename_i a b first second
    obtain ⟨inside, rfl⟩ := List.getElem?_eq_some_iff.mp first
    obtain ⟨inside', rfl⟩ := List.getElem?_eq_some_iff.mp second
    exact List.set_set_perm inside inside'
  · exact List.Perm.refl xs

theorem swap_outside {xs : List α} {i j : Nat} (outside : ¬ (i < xs.length ∧ j < xs.length)) :
    swap xs i j = xs := by
  rw [swap]
  split
  · rename_i first second
    have inside := (List.getElem?_eq_some_iff.mp first).1
    have inside' := (List.getElem?_eq_some_iff.mp second).1
    exact absurd ⟨inside, inside'⟩ outside
  · rfl

theorem getElem?_swap {xs : List α} {i j : Nat} (hi : i < xs.length) (hj : j < xs.length)
    (k : Nat) : (swap xs i j)[k]? = xs[Equiv.swap i j k]? := by
  have first := List.getElem?_eq_getElem hi
  have second := List.getElem?_eq_getElem hj
  simp only [swap, first, second, List.getElem?_set, List.length_set]
  by_cases atJ : j = k
  · subst atJ
    simp [hj]
  · by_cases atI : i = k
    · subst atI
      simp [atJ, hi, hj]
    · rw [Equiv.swap_apply_of_ne_of_ne (Ne.symm atI) (Ne.symm atJ)]
      simp [atI, atJ]

theorem swap_comm (i j : Nat) : swap xs i j = swap xs j i := by
  by_cases inside : i < xs.length ∧ j < xs.length
  · apply List.ext_getElem?
    intro k
    rw [getElem?_swap inside.1 inside.2, getElem?_swap inside.2 inside.1, Equiv.swap_comm]
  · rw [swap_outside inside, swap_outside fun h => inside h.symm]

@[simp] theorem swap_swap (i j : Nat) : swap (swap xs i j) i j = xs := by
  by_cases inside : i < xs.length ∧ j < xs.length
  · apply List.ext_getElem?
    intro k
    have inside' : i < (swap xs i j).length ∧ j < (swap xs i j).length := by simpa using inside
    rw [getElem?_swap inside'.1 inside'.2, getElem?_swap inside.1 inside.2, Equiv.swap_apply_self]
  · rw [swap_outside inside, swap_outside inside]

/-- A series of swaps, first pair first. -/
def swapAll (pairs : List (Nat × Nat)) : List α :=
  pairs.foldl (fun xs pair => swap xs pair.1 pair.2) xs

@[simp] theorem swapAll_nil : swapAll xs [] = xs := rfl

@[simp] theorem swapAll_cons (pair : Nat × Nat) (rest : List (Nat × Nat)) :
    swapAll xs (pair :: rest) = swapAll (swap xs pair.1 pair.2) rest := rfl

theorem swapAll_append (front back : List (Nat × Nat)) :
    swapAll xs (front ++ back) = swapAll (swapAll xs front) back :=
  List.foldl_append

@[simp] theorem length_swapAll (pairs : List (Nat × Nat)) :
    (swapAll xs pairs).length = xs.length := by
  induction pairs generalizing xs with
  | nil => rfl
  | cons pair rest ih => rw [swapAll_cons, ih, length_swap]

theorem swapAll_perm (pairs : List (Nat × Nat)) : (swapAll xs pairs).Perm xs := by
  induction pairs generalizing xs with
  | nil => exact List.Perm.refl xs
  | cons pair rest ih => exact (ih _).trans (swap_perm xs pair.1 pair.2)

theorem swapAll_reverse (pairs : List (Nat × Nat)) :
    swapAll (swapAll xs pairs) pairs.reverse = xs := by
  induction pairs generalizing xs with
  | nil => rfl
  | cons pair rest ih =>
    have undone := ih (swap xs pair.1 pair.2)
    rw [List.reverse_cons, swapAll_append, swapAll_cons xs, undone]
    exact swap_swap xs pair.1 pair.2

end Swaps
