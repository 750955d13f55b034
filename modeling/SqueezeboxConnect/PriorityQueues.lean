import Mathlib.Data.List.MinMax
import SqueezeboxConnect.Tables

/-!
# Priority queues

A priority queue with changeable priorities stands for a map from items to
priorities. An implementation comes with that map and with what each operation
does to it; `pop` takes out an item of greatest priority. A table with a search
for the greatest priority is one.
-/

namespace PriorityQueues

open Tables

structure PriorityQueue (K P : Type) [DecidableEq K] [LinearOrder P] where
  Queue : Type
  empty : Queue
  /-- The map the queue stands for. -/
  get : Queue → K → Option P
  push : Queue → K → P → Queue
  changePriority : Queue → K → P → Option P × Queue
  remove : Queue → K → Option (K × P) × Queue
  pop : Queue → Option (K × P) × Queue
  get_empty : ∀ k, get empty k = none
  get_push : ∀ q k p other, get (push q k p) other = if other = k then some p else get q other
  changePriority_old : ∀ q k p, (changePriority q k p).1 = get q k
  get_changePriority : ∀ q k p other, get (changePriority q k p).2 other =
    if other = k then (get q k).map (fun _ => p) else get q other
  remove_old : ∀ q k, (remove q k).1 = (get q k).map (Prod.mk k)
  get_remove : ∀ q k other, get (remove q k).2 other = if other = k then none else get q other
  pop_none : ∀ q, (pop q).1 = none → ∀ k, get q k = none
  pop_some : ∀ q k p, (pop q).1 = some (k, p) → get q k = some p ∧
    (∀ other p', get q other = some p' → p' ≤ p) ∧
    ∀ other, get (pop q).2 other = if other = k then none else get q other

variable {K P : Type} [DecidableEq K] [LinearOrder P]

def greatest (table : Table K P) : Option (K × P) := table.entries.argmax (·.2)

variable {table : Table K P}

theorem greatest_none (nothing : greatest table = none) (k : K) : table.lookup k = none := by
  rw [greatest, List.argmax_eq_none] at nothing
  rw [Table.lookup, nothing]
  rfl

theorem greatest_some {k : K} {p : P} (found : greatest table = some (k, p)) :
    table.lookup k = some p ∧ ∀ other p', table.lookup other = some p' → p' ≤ p := by
  refine ⟨(table.lookup_eq_some_iff k p).mpr (List.argmax_mem found), ?_⟩
  intro other p' there
  exact List.le_of_mem_argmax (f := Prod.snd) ((table.lookup_eq_some_iff other p').mp there) found

/-- Change a value that is there. -/
def change (table : Table K P) (k : K) (p : P) : Table K P :=
  if (table.lookup k).isSome then table.put k p else table

omit [LinearOrder P] in
theorem lookup_change (table : Table K P) (k : K) (p : P) (other : K) :
    (change table k p).lookup other =
      if other = k then (table.lookup k).map (fun _ => p) else table.lookup other := by
  rw [change]
  cases there : table.lookup k with
  | none =>
    rw [if_neg (by simp)]
    split
    · next same => rw [same, there, Option.map_none]
    · rfl
  | some old => rw [if_pos Option.isSome_some, Table.lookup_put, Option.map_some]

def popGreatest (table : Table K P) : Option (K × P) × Table K P :=
  match greatest table with
  | none => (none, table)
  | some entry => (some entry, table.remove entry.1)

theorem popGreatest_fst (table : Table K P) : (popGreatest table).1 = greatest table := by
  rw [popGreatest]
  split <;> simp [*]

theorem popGreatest_snd {entry : K × P} (found : greatest table = some entry) :
    (popGreatest table).2 = table.remove entry.1 := by
  rw [popGreatest, found]

/-- A table as a priority queue. -/
def ofTable (K P : Type) [DecidableEq K] [LinearOrder P] : PriorityQueue K P where
  Queue := Table K P
  empty := Table.empty
  get := Table.lookup
  push := Table.put
  changePriority table k p := (table.lookup k, change table k p)
  remove table k := ((table.lookup k).map (Prod.mk k), table.remove k)
  pop := popGreatest
  get_empty := Table.lookup_empty
  get_push := Table.lookup_put
  changePriority_old _ _ _ := rfl
  get_changePriority := lookup_change
  remove_old _ _ := rfl
  get_remove := Table.lookup_remove
  pop_none table nothing := greatest_none ((popGreatest_fst table).symm.trans nothing)
  pop_some table k p found := by
    rw [popGreatest_fst] at found
    obtain ⟨there, most⟩ := greatest_some found
    refine ⟨there, most, fun other => ?_⟩
    rw [popGreatest_snd found, Table.lookup_remove]

end PriorityQueues
