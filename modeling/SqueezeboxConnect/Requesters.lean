import Mathlib.Data.List.Basic
import Mathlib.Logic.Function.Basic

/-!
# Tables of requests that somebody waits for

A table has at each key at most one requester who waits for an answer there.
Requesters are numbered as they come. Somebody who leaves does not tell the
table; an entry disappears only by being settled, replaced or cleared.

A table is tidy if everybody in it still waits. It stays tidy exactly as long as
nobody leaves who is in it.
-/

namespace Requesters

universe u
variable {K : Type u} [DecidableEq K]

structure Book (K : Type u) where
  owner : K → Option Nat
  /-- The number of the next requester. -/
  next : Nat
  gone : List Nat
  answered : List Nat

inductive Move (K : Type u) where
  | ask (key : K)
  | askInVain
  | settle (key : K) (answer : Bool)
  | leave (id : Nat)
  | clear
  | stay

def step (book : Book K) : Move K → Book K
  | .ask key =>
    { book with owner := Function.update book.owner key (some book.next), next := book.next + 1 }
  | .askInVain => { book with next := book.next + 1 }
  | .settle key answer =>
    { book with
      owner := Function.update book.owner key none
      answered := if answer then book.answered ++ (book.owner key).toList else book.answered }
  | .leave id => { book with gone := if id < book.next then book.gone ++ [id] else book.gone }
  | .clear => { book with owner := fun _ => none }
  | .stay => book

def Waiting (book : Book K) (id : Nat) : Prop :=
  id < book.next ∧ id ∉ book.gone ∧ id ∉ book.answered

def Tidy (book : Book K) : Prop := ∀ key id, book.owner key = some id → Waiting book id

/-- Nobody is in the book twice or was answered while in it. -/
structure Inv (book : Book K) : Prop where
  open_ : ∀ key id, book.owner key = some id → id < book.next ∧ id ∉ book.answered
  once : ∀ key key' id, book.owner key = some id → book.owner key' = some id → key = key'
  known : ∀ id, id ∈ book.gone ∨ id ∈ book.answered → id < book.next

/-- Whoever leaves is not in the book. -/
def Fair (book : Book K) : Move K → Prop
  | .leave id => ∀ key, book.owner key ≠ some id
  | _ => True

variable {book : Book K}

theorem inv_step (inv : Inv book) (move : Move K) : Inv (step book move) := by
  obtain ⟨open_, once, known⟩ := inv
  constructor
  all_goals
    cases move <;> simp only [step, Function.update_apply] <;> grind

/-- A tidy book stays tidy exactly by a fair move. -/
theorem tidy_step_iff (inv : Inv book) (tidy : Tidy book) (move : Move K) :
    Tidy (step book move) ↔ Fair book move := by
  obtain ⟨open_, once, known⟩ := inv
  simp only [Tidy, Waiting] at tidy ⊢
  cases move with
  | leave id =>
    simp only [step, Fair]
    grind
  | _ =>
    refine iff_of_true ?_ trivial
    simp only [step, Function.update_apply]
    grind

/-- Some move leads from a book to another; the condition says whether it is fair. -/
def Leads (book book' : Book K) (fair : Prop) : Prop :=
  ∃ move, book' = step book move ∧ (fair ↔ Fair book move)

theorem leads_self (book : Book K) : Leads book book True := ⟨.stay, rfl, Iff.rfl⟩

section

variable {book' : Book K} {fair : Prop} (inv : Inv book) (leads : Leads book book' fair)
include inv leads

theorem inv_leads : Inv book' := by
  obtain ⟨move, rfl, -⟩ := leads
  exact inv_step inv move

theorem tidy_leads_iff (tidy : Tidy book) : Tidy book' ↔ fair := by
  obtain ⟨move, rfl, same⟩ := leads
  rw [same, tidy_step_iff inv tidy]

end

end Requesters
