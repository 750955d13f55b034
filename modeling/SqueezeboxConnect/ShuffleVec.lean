import SqueezeboxConnect.Swaps

/-!
# The shuffled vector

A vector that is shuffled in place, by one swap for each position, and that
remembers the drawn places to take the swaps back. The generator is a function
from a position to one of the places up to it, so every outcome it may have is
covered.
-/

namespace Connect

open Swaps

universe u
variable {α : Type u}

structure ShuffleVec (α : Type u) where
  vec : List α
  /-- The drawn places, the one for the last position first. -/
  indices : Option (List Nat)
  /-- Where the item was that has been swapped to the front. -/
  originalFirstPosition : Option Nat
  deriving DecidableEq, Repr

/-- What `rng.random_range(0..i + 1)` gives for each position `i`. -/
abbrev Rng := (i : Nat) → Fin (i + 1)

namespace ShuffleVec

/-- A vector that has not been shuffled. -/
def ofVec (vec : List α) : ShuffleVec α := ⟨vec, none, none⟩

variable (v : ShuffleVec α)

def push (item : α) : ShuffleVec α := { v with vec := v.vec ++ [item] }

theorem foldl_push (items : List α) : items.foldl push v = { v with vec := v.vec ++ items } := by
  induction items generalizing v with
  | nil => simp
  | cons item rest ih =>
    rw [List.foldl_cons, ih]
    simp [push]

def positions (len : Nat) : List Nat := List.range' 1 (len - 1)

/-- The loop that takes the swaps back; it is left where no place is remembered. -/
def unshuffleLoop (indices : List Nat) : List Nat → List α → List α
  | [], vec => vec
  | i :: rest, vec =>
    match indices[vec.length - i - 1]? with
    | none => vec
    | some n => unshuffleLoop indices rest (swap vec n i)

def swapFirst (vec : List α) : Option Nat → List α
  | some firstPos => swap vec 0 firstPos
  | none => vec

def unshuffle : ShuffleVec α :=
  match v.indices with
  | none => v
  | some indices =>
    let vec := swapFirst v.vec v.originalFirstPosition
    ⟨unshuffleLoop indices (positions vec.length) vec, none, none⟩

def shuffleWithRng (rng : Rng) (isFirst : α → Bool) : ShuffleVec α :=
  if v.vec.length ≤ 1 then v
  else
    let v := if v.indices.isSome then v.unshuffle else v
    let indices := (positions v.vec.length).reverse.map fun i => (rng i).val
    let vec := swapAll v.vec ((positions v.vec.length).reverse.zip indices)
    let firstPos := vec.findIdx? isFirst
    ⟨swapFirst vec firstPos, some indices, firstPos⟩

@[simp] theorem swapFirst_swapFirst (vec : List α) (firstPos : Option Nat) :
    swapFirst (swapFirst vec firstPos) firstPos = vec := by
  cases firstPos with
  | none => rfl
  | some firstPos => exact swap_swap ..

/-- The loop makes one swap for each position as long as places are remembered. -/
theorem unshuffleLoop_eq (indices rest : List Nat) (vec : List α) (place : Nat → Nat)
    (remembered : ∀ i ∈ rest, indices[vec.length - i - 1]? = some (place i)) :
    unshuffleLoop indices rest vec = swapAll vec (rest.map fun i => (i, place i)) := by
  induction rest generalizing vec with
  | nil => rfl
  | cons i rest ih =>
    have here := remembered i (by simp)
    rw [unshuffleLoop, here, List.map_cons, swapAll_cons, swap_comm vec i]
    apply ih
    intro j inside
    rw [length_swap]
    exact remembered j (by simp [inside])

/-- The place that was drawn for a position, where unshuffling looks for it. -/
theorem remembered_place (rng : Rng) {len i : Nat} (inside : i ∈ positions len) :
    ((positions len).reverse.map fun i => (rng i).val)[len - i - 1]? = some (rng i).val := by
  simp only [positions, List.mem_range'_1] at inside
  have place : len - i - 1 < (positions len).reverse.length := by
    simp only [positions, List.length_reverse, List.length_range']
    omega
  have found : (positions len).reverse[len - i - 1]? = some i := by
    rw [List.getElem?_reverse (by simpa using place)]
    simp only [positions, List.length_range']
    rw [List.getElem?_range' (by omega)]
    congr 1
    omega
  rw [List.getElem?_map, found]
  rfl

@[simp] theorem unshuffle_unshuffle : v.unshuffle.unshuffle = v.unshuffle := by
  unfold unshuffle
  cases indices : v.indices with
  | none => simp [indices]
  | some indices => rfl

theorem unshuffle_of_none {v : ShuffleVec α} (notShuffled : v.indices = none) :
    v.unshuffle = v := by
  rw [unshuffle, notShuffled]

/-- Unshuffling takes back the swaps of one shuffle. -/
theorem unshuffleLoop_swapAll (vec : List α) (rng : Rng) :
    let indices := (positions vec.length).reverse.map fun i => (rng i).val
    unshuffleLoop indices (positions vec.length)
      (swapAll vec ((positions vec.length).reverse.zip indices)) = vec := by
  intro indices
  have swaps : (positions vec.length).reverse.zip indices =
      ((positions vec.length).map fun i => (i, (rng i).val)).reverse := by
    rw [← List.map_reverse]
    exact List.map_prod_left_eq_zip.symm
  rw [swaps, unshuffleLoop_eq _ _ _ fun i => (rng i).val]
  · have undone := swapAll_reverse vec ((positions vec.length).map fun i =>
      (i, (rng i).val)).reverse
    rw [List.reverse_reverse] at undone
    exact undone
  · intro i inside
    rw [length_swapAll]
    exact remembered_place rng inside

theorem unshuffle_shuffled (vec : List α) (rng : Rng) (firstPos : Option Nat) :
    let indices := (positions vec.length).reverse.map fun i => (rng i).val
    (ShuffleVec.mk (swapFirst (swapAll vec ((positions vec.length).reverse.zip indices)) firstPos)
      (some indices) firstPos).unshuffle.vec = vec := by
  intro indices
  simp only [unshuffle, swapFirst_swapFirst, length_swapAll]
  exact unshuffleLoop_swapAll vec rng

/-- Whatever is drawn, unshuffling gives the same vector after a shuffle as before it. -/
theorem unshuffle_shuffleWithRng (rng : Rng) (isFirst : α → Bool) :
    (v.shuffleWithRng rng isFirst).unshuffle.vec = v.unshuffle.vec := by
  rw [shuffleWithRng]
  by_cases short : v.vec.length ≤ 1
  · rw [if_pos short]
  · have plain : (if v.indices.isSome then v.unshuffle else v).vec = v.unshuffle.vec := by
      cases indices : v.indices with
      | none => rw [unshuffle_of_none indices]; rfl
      | some _ => rfl
    simp only [if_neg short]
    rw [← plain]
    exact unshuffle_shuffled _ rng _

theorem swapFirst_perm (vec : List α) (firstPos : Option Nat) :
    (swapFirst vec firstPos).Perm vec := by
  cases firstPos with
  | none => exact List.Perm.refl vec
  | some firstPos => exact swap_perm ..

theorem unshuffleLoop_perm (indices rest : List Nat) (vec : List α) :
    (unshuffleLoop indices rest vec).Perm vec := by
  induction rest generalizing vec with
  | nil => exact List.Perm.refl vec
  | cons i rest ih =>
    rw [unshuffleLoop]
    split
    · exact List.Perm.refl vec
    · exact (ih _).trans (swap_perm ..)

theorem unshuffle_perm : v.unshuffle.vec.Perm v.vec := by
  rw [unshuffle]
  split
  · exact List.Perm.refl v.vec
  · exact (unshuffleLoop_perm ..).trans (swapFirst_perm ..)

theorem shuffleWithRng_perm (rng : Rng) (isFirst : α → Bool) :
    (v.shuffleWithRng rng isFirst).vec.Perm v.vec := by
  rw [shuffleWithRng]
  split
  · exact List.Perm.refl v.vec
  · refine ((swapFirst_perm ..).trans (swapAll_perm ..)).trans ?_
    split
    · exact unshuffle_perm v
    · exact List.Perm.refl v.vec

theorem mem_of_mem_unshuffle {v : ShuffleVec α} {x : α} (inside : x ∈ v.unshuffle.vec) :
    x ∈ v.vec :=
  (unshuffle_perm v).mem_iff.mp inside

variable {isFirst : α → Bool}

theorem mem_of_mem_shuffleWithRng {v : ShuffleVec α} {rng : Rng} {x : α}
    (inside : x ∈ (v.shuffleWithRng rng isFirst).vec) : x ∈ v.vec :=
  (shuffleWithRng_perm v rng isFirst).mem_iff.mp inside

theorem head_swapFirst {vec : List α} {x : α} (inside : x ∈ vec) (found : isFirst x = true) :
    ∃ y, (swapFirst vec (vec.findIdx? isFirst)).head? = some y ∧ isFirst y = true := by
  cases position : vec.findIdx? isFirst with
  | none =>
    have absent := List.findIdx?_eq_none_iff.mp position x inside
    rw [absent] at found
    cases found
  | some firstPos =>
    obtain ⟨bound, holds, -⟩ := List.findIdx?_eq_some_iff_getElem.mp position
    refine ⟨vec[firstPos], ?_, holds⟩
    rw [swapFirst, List.head?_eq_getElem?, getElem?_swap (by omega) bound, Equiv.swap_apply_left]
    exact List.getElem?_eq_getElem bound

theorem head_shuffleWithRng {v : ShuffleVec α} (long : 2 ≤ v.vec.length) (rng : Rng) {x : α}
    (inside : x ∈ v.vec) (found : isFirst x = true) :
    ∃ y, (v.shuffleWithRng rng isFirst).vec.head? = some y ∧ isFirst y = true := by
  have inside' := (shuffleWithRng_perm v rng isFirst).mem_iff.mpr inside
  rw [shuffleWithRng, if_neg (by omega)] at inside' ⊢
  exact head_swapFirst ((swapFirst_perm ..).mem_iff.mp inside') found

/-- Successive shuffles, each with its own draws and its own first item. -/
def shuffleAll (calls : List (Rng × (α → Bool))) : ShuffleVec α :=
  calls.foldl (fun v call => v.shuffleWithRng call.1 call.2) v

theorem shuffleAll_perm (calls : List (Rng × (α → Bool))) :
    (v.shuffleAll calls).vec.Perm v.vec := by
  induction calls generalizing v with
  | nil => exact List.Perm.refl v.vec
  | cons call rest ih => exact (ih _).trans (shuffleWithRng_perm v call.1 call.2)

theorem unshuffle_shuffleAll (calls : List (Rng × (α → Bool))) :
    (v.shuffleAll calls).unshuffle.vec = v.unshuffle.vec := by
  induction calls generalizing v with
  | nil => rfl
  | cons call rest ih => exact (ih _).trans (unshuffle_shuffleWithRng v call.1 call.2)

/-- Whatever is drawn, shuffles permute the vector behind the last first item, and one
unshuffle takes all of them back. -/
theorem shuffles_invertible (vec : List α) (calls : List (Rng × (α → Bool))) :
    ((ofVec vec).shuffleAll calls).vec.Perm vec ∧
      (∀ last ∈ calls.getLast?, 2 ≤ vec.length → (∃ x ∈ vec, last.2 x = true) →
        ∃ y, ((ofVec vec).shuffleAll calls).vec.head? = some y ∧ last.2 y = true) ∧
      ((ofVec vec).shuffleAll calls).unshuffle.vec = vec := by
  refine ⟨shuffleAll_perm _ calls, ?_, unshuffle_shuffleAll _ calls⟩
  rintro last isLast long ⟨x, inside, found⟩
  have split := List.dropLast_append_getLast? last isLast
  have before := shuffleAll_perm (ofVec vec) calls.dropLast
  have shuffled : (ofVec vec).shuffleAll calls =
      ((ofVec vec).shuffleAll calls.dropLast).shuffleWithRng last.1 last.2 := by
    conv => lhs; rw [← split]
    exact List.foldl_append
  rw [shuffled]
  refine head_shuffleWithRng ?_ last.1 (before.mem_iff.mpr inside) found
  rw [before.length_eq]
  exact long

/-- Two shuffles of three items, the second with `2` in front. -/
theorem threeItems_invertible :
    let calls : List (Rng × (Nat → Bool)) :=
      [(fun _ => 0, (· == 1)), (fun i => Fin.last i, (· == 2))]
    let shuffled := (ofVec [0, 1, 2]).shuffleAll calls
    shuffled.vec.Perm [0, 1, 2] ∧ (∃ y, shuffled.vec.head? = some y ∧ (y == 2) = true) ∧
      shuffled.unshuffle.vec = [0, 1, 2] := by
  obtain ⟨perm, first, undone⟩ := shuffles_invertible [0, 1, 2]
    [(fun _ => 0, (· == 1)), (fun i => Fin.last i, (· == 2))]
  exact ⟨perm, first _ rfl (by decide) ⟨2, by decide, by decide⟩, undone⟩

end ShuffleVec

end Connect
