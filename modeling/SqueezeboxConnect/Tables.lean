import Mathlib.Algebra.Order.Ring.Nat
import Mathlib.Data.List.Basic
import Mathlib.Data.List.Nodup

/-!
# Association tables

A table is a list of keys with their values, read by `List.lookup`. A value is
put in the place of the one its key has, so that putting back what is there
changes nothing. A `Table` has each key once, so its entries are the values that
can be looked up.
-/

namespace Tables

universe u v
variable {K : Type u} {V : Type v} [BEq K]

/-- Store the value, in the place of the one the key has. -/
def put (key : K) (value : V) : List (K × V) → List (K × V)
  | [] => [(key, value)]
  | (k, v) :: rest => if key == k then (k, value) :: rest else (k, v) :: put key value rest

def remove (key : K) (table : List (K × V)) : List (K × V) :=
  table.filter fun entry => !(key == entry.1)

theorem lookup_cons_ne [LawfulBEq K] {key k : K} (v : V) (rest : List (K × V))
    (apart : key ≠ k) : ((k, v) :: rest).lookup key = rest.lookup key := by
  rw [List.lookup_cons, beq_eq_false_iff_ne.mpr apart]

theorem put_cons_ne [LawfulBEq K] {key k : K} (value v : V) (rest : List (K × V))
    (apart : key ≠ k) : put key value ((k, v) :: rest) = (k, v) :: put key value rest := by
  simp [put, apart]

@[simp] theorem put_cons_self [LawfulBEq K] (key : K) (value v : V) (rest : List (K × V)) :
    put key value ((key, v) :: rest) = (key, value) :: rest := by
  simp [put]

@[simp] theorem lookup_put_self [LawfulBEq K] (key : K) (value : V) (table : List (K × V)) :
    (put key value table).lookup key = some value := by
  induction table with
  | nil => simp [put]
  | cons entry rest ih =>
    obtain ⟨k, v⟩ := entry
    by_cases same : key = k
    · subst same
      rw [put_cons_self, List.lookup_cons_self]
    · rw [put_cons_ne value v rest same, lookup_cons_ne v _ same, ih]

theorem lookup_put_ne [LawfulBEq K] {key other : K} (value : V) (table : List (K × V))
    (apart : other ≠ key) : (put key value table).lookup other = table.lookup other := by
  induction table with
  | nil => exact lookup_cons_ne value [] apart
  | cons entry rest ih =>
    obtain ⟨k, v⟩ := entry
    by_cases same : key = k
    · subst same
      rw [put_cons_self, lookup_cons_ne value rest apart, lookup_cons_ne v rest apart]
    · rw [put_cons_ne value v rest same, List.lookup_cons, List.lookup_cons, ih]

variable {value : V}

/-- What is already there is put back. -/
theorem put_eq_self [LawfulBEq K] {key : K} {table : List (K × V)}
    (there : table.lookup key = some value) : put key value table = table := by
  induction table with
  | nil => simp at there
  | cons entry rest ih =>
    obtain ⟨k, v⟩ := entry
    by_cases same : key = k
    · subst same
      rw [List.lookup_cons_self, Option.some.injEq] at there
      rw [put_cons_self, there]
    · rw [lookup_cons_ne v rest same] at there
      rw [put_cons_ne value v rest same, ih there]

theorem put_ne_nil (key : K) (value : V) (table : List (K × V)) : put key value table ≠ [] := by
  cases table with
  | nil => simp [put]
  | cons entry rest =>
    simp only [put]
    split <;> simp

@[simp] theorem lookup_remove_self [LawfulBEq K] (key : K) (table : List (K × V)) :
    (remove key table).lookup key = none := by
  rw [List.lookup_eq_none_iff]
  intro entry inside
  simpa using (List.mem_filter.mp inside).2

theorem lookup_remove_ne [LawfulBEq K] {key other : K} (table : List (K × V))
    (apart : other ≠ key) : (remove key table).lookup other = table.lookup other := by
  induction table with
  | nil => rfl
  | cons entry rest ih =>
    obtain ⟨k, v⟩ := entry
    by_cases same : key = k
    · have gone : remove key ((k, v) :: rest) = remove key rest := by simp [remove, same]
      rw [gone, ih, lookup_cons_ne v rest (same ▸ apart)]
    · have stays : remove key ((k, v) :: rest) = (k, v) :: remove key rest := by
        simp [remove, same]
      rw [stays, List.lookup_cons, List.lookup_cons, ih]

theorem mem_of_lookup [LawfulBEq K] {key : K} {table : List (K × V)}
    (there : table.lookup key = some value) : (key, value) ∈ table := by
  obtain ⟨front, back, rfl, -⟩ := List.lookup_eq_some_iff.mp there
  simp

theorem exists_lookup [LawfulBEq K] {table : List (K × V)} (entries : table ≠ []) :
    ∃ key value, table.lookup key = some value := by
  cases table with
  | nil => exact absurd rfl entries
  | cons entry rest => exact ⟨entry.1, entry.2, List.lookup_cons_self⟩

theorem remove_of_absent [LawfulBEq K] {key : K} {entries : List (K × V)}
    (absent : entries.lookup key = none) : remove key entries = entries := by
  refine List.filter_eq_self.mpr fun entry inside => ?_
  simpa using List.lookup_eq_none_iff.mp absent entry inside

/-- Store the value, unless it is an empty one. -/
def replace (isEmpty : V → Bool) (key : K) (value : V) (table : List (K × V)) : List (K × V) :=
  if isEmpty value then remove key table else put key value table

section Defaults

variable [Inhabited V] {table : List (K × V)} {key : K}

/-- The value that `or_default` gives. -/
def orDefault (table : List (K × V)) (key : K) : V := (table.lookup key).getD default

theorem orDefault_absent (absent : table.lookup key = none) : orDefault table key = default := by
  rw [orDefault, absent, Option.getD_none]

theorem orDefault_there (there : table.lookup key = some value) : orDefault table key = value := by
  rw [orDefault, there, Option.getD_some]

variable [LawfulBEq K] [DecidableEq K]

theorem orDefault_put (key : K) (value : V) (table : List (K × V)) (other : K) :
    orDefault (put key value table) other = if other = key then value
      else orDefault table other := by
  split
  · next same => rw [same, orDefault_there (lookup_put_self ..)]
  · next apart => rw [orDefault, lookup_put_ne value table apart, orDefault]

theorem orDefault_replace {isEmpty : V → Bool} (empty : ∀ v, isEmpty v = true → v = default)
    (key : K) (value : V) (table : List (K × V)) (other : K) :
    orDefault (replace isEmpty key value table) other =
      if other = key then value else orDefault table other := by
  rw [replace]
  by_cases left : isEmpty value = true
  · rw [if_pos left]
    split
    · next same => rw [same, orDefault_absent (lookup_remove_self ..), empty value left]
    · next apart => rw [orDefault, lookup_remove_ne table apart, orDefault]
  · rw [if_neg left, orDefault_put]

end Defaults

/-- Every value that can be looked up has the property. -/
def AllValues (P : V → Prop) (table : List (K × V)) : Prop :=
  ∀ key value, table.lookup key = some value → P value

section AllValues

variable {P : V → Prop} {table : List (K × V)} (values : AllValues P table)
include values

theorem allValues_orDefault [Inhabited V] (empty : P default) (key : K) :
    P (orDefault table key) := by
  cases there : table.lookup key with
  | none => rwa [orDefault_absent there]
  | some value =>
    rw [orDefault_there there]
    exact values key value there

variable [LawfulBEq K]

theorem allValues_put (new : P value) (key : K) : AllValues P (put key value table) := by
  intro other v there
  by_cases same : other = key
  · rw [same, lookup_put_self, Option.some.injEq] at there
    exact there ▸ new
  · rw [lookup_put_ne value table same] at there
    exact values other v there

theorem allValues_replace {isEmpty : V → Bool} (new : isEmpty value = false → P value) (key : K) :
    AllValues P (replace isEmpty key value table) := by
  rw [replace]
  split
  · intro other v there
    by_cases same : other = key
    · rw [same, lookup_remove_self] at there
      cases there
    · rw [lookup_remove_ne table same] at there
      exact values other v there
  · next filled => exact allValues_put values (new (by simpa using filled)) key

end AllValues

section Keys

variable [LawfulBEq K]

theorem keys_put (key : K) (value : V) (table : List (K × V)) :
    (put key value table).map (·.1) =
      if (table.lookup key).isSome then table.map (·.1) else table.map (·.1) ++ [key] := by
  induction table with
  | nil => rfl
  | cons entry rest ih =>
    obtain ⟨k, v⟩ := entry
    by_cases same : key = k
    · subst same
      simp
    · rw [put_cons_ne value v rest same, lookup_cons_ne v rest same, List.map_cons, ih]
      split <;> rfl

theorem lookup_isSome_iff (key : K) (table : List (K × V)) :
    (table.lookup key).isSome ↔ key ∈ table.map (·.1) := by
  induction table with
  | nil => simp
  | cons entry rest ih =>
    obtain ⟨k, v⟩ := entry
    by_cases same : key = k
    · subst same
      simp
    · rw [lookup_cons_ne v rest same, ih, List.map_cons, List.mem_cons, or_iff_right same]

theorem nodup_put {table : List (K × V)} (nodup : (table.map (·.1)).Nodup) (key : K) (value : V) :
    ((put key value table).map (·.1)).Nodup := by
  rw [keys_put]
  split
  · exact nodup
  · next absent =>
    rw [lookup_isSome_iff] at absent
    refine List.Nodup.append nodup (List.nodup_singleton key) ?_
    intro other inside last
    exact absent (List.mem_singleton.mp last ▸ inside)

omit [LawfulBEq K] in
theorem nodup_remove {table : List (K × V)} (nodup : (table.map (·.1)).Nodup) (key : K) :
    ((remove key table).map (·.1)).Nodup :=
  nodup.sublist (List.filter_sublist.map _)

end Keys

/-- A table that has each key once. -/
structure Table (K : Type u) (V : Type v) where
  entries : List (K × V)
  nodup : (entries.map (·.1)).Nodup

namespace Table

variable [LawfulBEq K]

def empty : Table K V := ⟨[], List.nodup_nil⟩

def lookup (table : Table K V) (key : K) : Option V := table.entries.lookup key

def put (table : Table K V) (key : K) (value : V) : Table K V :=
  ⟨Tables.put key value table.entries, nodup_put table.nodup key value⟩

def remove (table : Table K V) (key : K) : Table K V :=
  ⟨Tables.remove key table.entries, nodup_remove table.nodup key⟩

omit [LawfulBEq K] in
@[simp] theorem lookup_empty (key : K) : (empty : Table K V).lookup key = none := rfl

theorem lookup_put [DecidableEq K] (table : Table K V) (key : K) (value : V) (other : K) :
    (table.put key value).lookup other =
      if other = key then some value else table.lookup other := by
  split
  · next same => exact same ▸ lookup_put_self key value table.entries
  · next apart => exact lookup_put_ne value table.entries apart

theorem lookup_remove [DecidableEq K] (table : Table K V) (key other : K) :
    (table.remove key).lookup other = if other = key then none else table.lookup other := by
  split
  · next same => exact same ▸ lookup_remove_self key table.entries
  · next apart => exact lookup_remove_ne table.entries apart

theorem lookup_eq_some_iff (table : Table K V) (key : K) (value : V) :
    table.lookup key = some value ↔ (key, value) ∈ table.entries := by
  refine ⟨mem_of_lookup, fun inside => ?_⟩
  obtain ⟨entries, nodup⟩ := table
  induction entries with
  | nil => cases inside
  | cons entry rest ih =>
    obtain ⟨k, v⟩ := entry
    rw [List.map_cons, List.nodup_cons] at nodup
    rcases List.mem_cons.mp inside with same | later
    · cases same
      exact List.lookup_cons_self
    · have apart : key ≠ k := by
        rintro rfl
        exact nodup.1 (List.mem_map.mpr ⟨_, later, rfl⟩)
      exact (lookup_cons_ne v rest apart).trans (ih nodup.2 later)

/-- The number of entries, for the measure of a loop that removes them. -/
theorem length_remove_lt (table : Table K V) {key : K} (there : table.lookup key = some value) :
    (table.remove key).entries.length < table.entries.length := by
  refine List.length_filter_lt_length_iff_exists.mpr ⟨(key, value), mem_of_lookup there, ?_⟩
  simp

end Table

section Totals

variable [LawfulBEq K]

def total (entries : List (K × Nat)) : Nat := (entries.map (·.2)).sum

theorem total_put (key : K) (value : Nat) (entries : List (K × Nat)) :
    total (put key value entries) + (entries.lookup key).getD 0 = total entries + value := by
  induction entries with
  | nil => simp [total, put]
  | cons entry rest ih =>
    obtain ⟨k, v⟩ := entry
    by_cases same : key = k
    · subst same
      simp only [put_cons_self, List.lookup_cons_self, total, List.map_cons, List.sum_cons,
        Option.getD_some]
      omega
    · rw [put_cons_ne value v rest same, lookup_cons_ne v rest same]
      simp only [total, List.map_cons, List.sum_cons] at ih ⊢
      omega

theorem total_remove (key : K) {entries : List (K × Nat)} (nodup : (entries.map (·.1)).Nodup) :
    total (remove key entries) + (entries.lookup key).getD 0 = total entries := by
  induction entries with
  | nil => rfl
  | cons entry rest ih =>
    obtain ⟨k, v⟩ := entry
    rw [List.map_cons, List.nodup_cons] at nodup
    by_cases same : key = k
    · subst same
      have absent : rest.lookup key = none := by
        rw [← Option.not_isSome_iff_eq_none, lookup_isSome_iff]
        exact nodup.1
      have gone : remove key ((key, v) :: rest) = rest := by
        rw [remove, List.filter_cons_of_neg (by simp), ← remove, remove_of_absent absent]
      rw [gone, List.lookup_cons_self]
      simp only [total, List.map_cons, List.sum_cons, Option.getD_some]
      omega
    · have stays : remove key ((k, v) :: rest) = (k, v) :: remove key rest := by
        simp [remove, same]
      have others := ih nodup.2
      rw [stays, lookup_cons_ne v rest same]
      simp only [total, List.map_cons, List.sum_cons] at others ⊢
      omega

end Totals

end Tables
