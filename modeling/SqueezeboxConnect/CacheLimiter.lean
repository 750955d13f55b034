import SqueezeboxConnect.PriorityQueues

/-!
# The size limiter of the cache

The limiter records the files of the cache with their sizes and access times, and
the sum of the sizes. When the sum exceeds the limit, the file with the oldest
access time is handed out for deletion.

The priority queue is any implementation that meets its laws. The sum is a `u64`,
with additions and subtractions that stop where they would overflow.
-/

namespace CacheLimiter

open PriorityQueues Tables OrderDual

variable {Path Time : Type} [DecidableEq Path] [LinearOrder Time]

/-- What the sum would panic on. -/
inductive Fault where
  | overflow
  | underflow
  deriving DecidableEq, Repr

def addSize (inUse size : Nat) : Except Fault Nat :=
  if inUse + size < 2 ^ 64 then .ok (inUse + size) else .error .overflow

def subSize (inUse size : Nat) : Except Fault Nat :=
  if size ≤ inUse then .ok (inUse - size) else .error .underflow

/-- `Reverse<SystemTime>` is the time in the dual order. -/
structure SizeLimiter (queues : PriorityQueue Path Timeᵒᵈ) where
  queue : queues.Queue
  sizes : Table Path Nat
  sizeLimit : Nat
  inUse : Nat

namespace SizeLimiter

variable {queues : PriorityQueue Path Timeᵒᵈ}

def new (limit : Nat) : SizeLimiter queues := ⟨queues.empty, .empty, limit, 0⟩

variable (l : SizeLimiter queues)

def add (file : Path) (size : Nat) (accessed : Time) : Except Fault (SizeLimiter queues) := do
  let inUse ← addSize l.inUse size
  let queue := queues.push l.queue file (toDual accessed)
  let sizes := l.sizes.put file size
  match l.sizes.lookup file with
  | none => .ok { l with queue := queue, sizes := sizes, inUse := inUse }
  | some oldSize => do
    let inUse ← subSize inUse oldSize
    .ok { l with queue := queue, sizes := sizes, inUse := inUse }

def exceedsLimit : Bool := l.sizeLimit < l.inUse

/-- Take the size of a file that left the queue out of the sum. -/
def forget (queue : queues.Queue) (file : Path) : Except Fault (SizeLimiter queues) :=
  match l.sizes.lookup file with
  | some size => do
    let inUse ← subSize l.inUse size
    .ok { l with queue := queue, sizes := l.sizes.remove file, inUse := inUse }
  | none => .ok { l with queue := queue }

def pop : Except Fault (Option Path × SizeLimiter queues) :=
  if l.exceedsLimit then
    match (queues.pop l.queue).1 with
    | some (next, _) => do
      let l ← l.forget (queues.pop l.queue).2 next
      .ok (some next, l)
    | none => .ok (none, { l with queue := (queues.pop l.queue).2 })
  else .ok (none, l)

def update (file : Path) (accessTime : Time) : Bool × SizeLimiter queues :=
  let changed := queues.changePriority l.queue file (toDual accessTime)
  (changed.1.isSome, { l with queue := changed.2 })

def remove (file : Path) : Except Fault (Bool × SizeLimiter queues) :=
  let removed := queues.remove l.queue file
  if removed.1.isNone then .ok (false, { l with queue := removed.2 })
  else do
    let l ← l.forget removed.2 file
    .ok (true, l)

end SizeLimiter

/-- What `prune_internal` did: the files it asked to delete, in order, and the last error. -/
structure Pruned (queues : PriorityQueue Path Timeᵒᵈ) (E : Type) where
  files : List Path
  lastError : Option E
  limiter : SizeLimiter queues

/-- Pop until there is nothing to pop; nothing is returned if the fuel runs out before. -/
def pruneInternal {E : Type} {queues : PriorityQueue Path Timeᵒᵈ} (failure : Path → Option E) :
    Nat → SizeLimiter queues → Except Fault (Option (Pruned queues E))
  | 0, _ => .ok none
  | fuel + 1, l => do
    let popped ← l.pop
    match popped.1 with
    | none => .ok (some ⟨[], none, popped.2⟩)
    | some file => do
      let rest ← pruneInternal failure fuel popped.2
      .ok (rest.map fun r => ⟨file :: r.files, r.lastError.or (failure file), r.limiter⟩)

inductive Call (Path Time : Type) where
  | add (file : Path) (size : Nat) (accessed : Time)
  | update (file : Path) (accessTime : Time)
  | remove (file : Path)
  | pop

variable {queues : PriorityQueue Path Timeᵒᵈ}

def step (l : SizeLimiter queues) : Call Path Time → Except Fault (SizeLimiter queues)
  | .add file size accessed => l.add file size accessed
  | .update file accessTime => .ok (l.update file accessTime).2
  | .remove file => l.remove file >>= fun removed => .ok removed.2
  | .pop => l.pop >>= fun popped => .ok popped.2

def run (l : SizeLimiter queues) (calls : List (Call Path Time)) :
    Except Fault (SizeLimiter queues) :=
  calls.foldlM step l

/-- The sizes on record and the size that is added come to a `u64`. -/
def Fits (l : SizeLimiter queues) : Call Path Time → Prop
  | .add _ size _ => total l.sizes.entries + size < 2 ^ 64
  | _ => True

/-- The total of the sizes stays within `u64` in every call. -/
def Within : SizeLimiter queues → List (Call Path Time) → Prop
  | _, [] => True
  | l, call :: calls => Fits l call ∧ ∀ l', step l call = .ok l' → Within l' calls

section Operations

/-- The sum is right, and both containers have the same keys. -/
structure Sound (l : SizeLimiter queues) : Prop where
  inUse_eq : l.inUse = total l.sizes.entries
  same_keys : ∀ file, (queues.get l.queue file).isSome = (l.sizes.lookup file).isSome

variable {l : SizeLimiter queues}

theorem sound_new (limit : Nat) : Sound (SizeLimiter.new limit : SizeLimiter queues) where
  inUse_eq := rfl
  same_keys file := by simp [SizeLimiter.new, queues.get_empty]

variable {size : Nat}

theorem subSize_eq {inUse : Nat} (enough : size ≤ inUse) :
    subSize inUse size = .ok (inUse - size) := if_pos enough

theorem total_ge_lookup (table : Table Path Nat) (file : Path) :
    (table.lookup file).getD 0 ≤ total table.entries := by
  have sum := total_remove file table.nodup
  rw [Table.lookup]
  omega

/-- A file that was already there leaves its old size behind. -/
theorem add_eq (sound : Sound l) (fits : total l.sizes.entries + size < 2 ^ 64) (file : Path)
    (accessed : Time) :
    l.add file size accessed = .ok
      ⟨queues.push l.queue file (toDual accessed), l.sizes.put file size, l.sizeLimit,
        l.inUse + size - (l.sizes.lookup file).getD 0⟩ := by
  have inUse : addSize l.inUse size = .ok (l.inUse + size) := if_pos (sound.inUse_eq ▸ fits)
  have enough := total_ge_lookup l.sizes file
  rw [← sound.inUse_eq] at enough
  cases there : l.sizes.lookup file with
  | none =>
    simp only [SizeLimiter.add, inUse, there]
    rfl
  | some old =>
    rw [there, Option.getD_some] at enough
    have taken := subSize_eq (Nat.le_trans enough (Nat.le_add_right l.inUse size))
    simp only [SizeLimiter.add, inUse, there, bind, Except.bind, taken, Option.getD_some]

theorem add_sound (sound : Sound l) (fits : total l.sizes.entries + size < 2 ^ 64) (file : Path)
    (accessed : Time) :
    ∃ l', l.add file size accessed = .ok l' ∧
      total l'.sizes.entries ≤ total l.sizes.entries + size ∧ Sound l' := by
  have sum := total_put file size l.sizes.entries
  refine ⟨_, add_eq sound fits file accessed, ?_, ?_, fun other => ?_⟩
  · simp only [Table.put]
    omega
  · have inUse := sound.inUse_eq
    simp only [Table.put, Table.lookup]
    omega
  · simp only [queues.get_push, Table.lookup_put]
    split
    · rfl
    · exact sound.same_keys other

theorem update_sound (sound : Sound l) (file : Path) (accessTime : Time) :
    Sound (l.update file accessTime).2 where
  inUse_eq := sound.inUse_eq
  same_keys other := by
    rw [SizeLimiter.update, queues.get_changePriority]
    split
    · next same => rw [same, Option.isSome_map, sound.same_keys]
    · exact sound.same_keys other

theorem forget_eq (sound : Sound l) {queue : queues.Queue} {file : Path}
    (there : l.sizes.lookup file = some size) :
    l.forget queue file = .ok ⟨queue, l.sizes.remove file, l.sizeLimit, l.inUse - size⟩ := by
  have enough := total_ge_lookup l.sizes file
  rw [there, Option.getD_some, ← sound.inUse_eq] at enough
  simp only [SizeLimiter.forget, there, subSize_eq enough, bind, Except.bind]

theorem forget_sound (sound : Sound l) {queue : queues.Queue} {file : Path}
    (there : l.sizes.lookup file = some size) (left : ∀ other, queues.get queue other =
      if other = file then none else queues.get l.queue other) :
    Sound ⟨queue, l.sizes.remove file, l.sizeLimit, l.inUse - size⟩ where
  inUse_eq := by
    have sum := total_remove file l.sizes.nodup
    have inUse := sound.inUse_eq
    rw [← Table.lookup, there, Option.getD_some] at sum
    simp only [Table.remove]
    omega
  same_keys other := by
    rw [left, Table.lookup_remove]
    split
    · rfl
    · exact sound.same_keys other

theorem total_remove_le (table : Table Path Nat) (file : Path) :
    total (table.remove file).entries ≤ total table.entries := by
  have sum := total_remove file table.nodup
  simp only [Table.remove]
  omega

theorem remove_sound (sound : Sound l) (file : Path) :
    ∃ removed, l.remove file = .ok removed ∧
      total removed.2.sizes.entries ≤ total l.sizes.entries ∧ Sound removed.2 := by
  have left := queues.get_remove l.queue file
  cases there : l.sizes.lookup file with
  | none =>
    have absent : queues.get l.queue file = none := by
      rw [← Option.isNone_iff_eq_none, ← Option.isSome_eq_false_iff, sound.same_keys, there]
      rfl
    refine ⟨(false, { l with queue := (queues.remove l.queue file).2 }), ?_, Nat.le_refl _,
      sound.inUse_eq, ?_⟩
    · simp [SizeLimiter.remove, queues.remove_old, absent]
    · intro other
      rw [left]
      split
      · next same => rw [same, there]; rfl
      · exact sound.same_keys other
  | some size =>
    have present : (queues.get l.queue file).isNone = false := by
      rw [← Option.not_isSome, sound.same_keys, there]
      rfl
    refine ⟨(true, _), ?_, total_remove_le l.sizes file, forget_sound sound there left⟩
    simp only [SizeLimiter.remove, queues.remove_old, Option.isNone_map, present,
      forget_eq sound there, bind, Except.bind]
    rfl

theorem pop_within (small : l.inUse ≤ l.sizeLimit) : l.pop = .ok (none, l) := by
  have kept : l.exceedsLimit = false := by simpa [SizeLimiter.exceedsLimit] using small
  simp [SizeLimiter.pop, kept]

theorem pop_exceeds (sound : Sound l) (exceeds : l.sizeLimit < l.inUse) :
    ∃ next time size, queues.get l.queue next = some (toDual time) ∧
      (∀ other t, queues.get l.queue other = some (toDual t) → time ≤ t) ∧
      l.sizes.lookup next = some size ∧
      l.pop = .ok (some next,
        ⟨(queues.pop l.queue).2, l.sizes.remove next, l.sizeLimit, l.inUse - size⟩) ∧
      Sound (⟨(queues.pop l.queue).2, l.sizes.remove next, l.sizeLimit, l.inUse - size⟩ :
        SizeLimiter queues) := by
  have full : l.exceedsLimit = true := by simpa [SizeLimiter.exceedsLimit] using exceeds
  cases popped : (queues.pop l.queue).1 with
  | none =>
    -- an empty table has the sum zero
    have nothing := queues.pop_none l.queue popped
    have empty : l.sizes.entries = [] := by
      by_contra filled
      obtain ⟨file, size, there⟩ := exists_lookup filled
      have keys := sound.same_keys file
      rw [nothing file, Table.lookup, there] at keys
      cases keys
    have sum := sound.inUse_eq
    rw [empty] at sum
    rw [sum] at exceeds
    exact absurd exceeds (Nat.not_lt_zero _)
  | some entry =>
    obtain ⟨next, priority⟩ := entry
    obtain ⟨there, most, left⟩ := queues.pop_some l.queue next priority popped
    have keys := sound.same_keys next
    rw [there, Option.isSome_some] at keys
    obtain ⟨size, recorded⟩ := Option.isSome_iff_exists.mp keys.symm
    refine ⟨next, ofDual priority, size, there, ?_, recorded, ?_, forget_sound sound recorded left⟩
    · intro other t at_other
      exact toDual_le.mp (most other (toDual t) at_other)
    · simp only [SizeLimiter.pop, full, if_true, popped, forget_eq sound recorded, bind,
        Except.bind]

theorem pop_sound (sound : Sound l) : ∃ popped, l.pop = .ok popped ∧
    total popped.2.sizes.entries ≤ total l.sizes.entries ∧ Sound popped.2 := by
  by_cases exceeds : l.sizeLimit < l.inUse
  · obtain ⟨next, time, size, -, -, -, popped, left⟩ := pop_exceeds sound exceeds
    exact ⟨_, popped, total_remove_le l.sizes next, left⟩
  · exact ⟨_, pop_within (Nat.le_of_not_lt exceeds), Nat.le_refl _, sound⟩

end Operations

section Runs

variable {l : SizeLimiter queues}

def addedSize : Call Path Time → Nat
  | .add _ size _ => size
  | _ => 0

theorem step_sound (sound : Sound l) {call : Call Path Time} (fits : Fits l call) :
    ∃ l', step l call = .ok l' ∧
      total l'.sizes.entries ≤ total l.sizes.entries + addedSize call ∧ Sound l' := by
  cases call with
  | add file size accessed => exact add_sound sound fits file accessed
  | update file accessTime => exact ⟨_, rfl, Nat.le_refl _, update_sound sound file accessTime⟩
  | remove file =>
    obtain ⟨removed, done, less, left⟩ := remove_sound sound file
    exact ⟨removed.2, by rw [step, done]; rfl, less, left⟩
  | pop =>
    obtain ⟨popped, done, less, left⟩ := pop_sound sound
    exact ⟨popped.2, by rw [step, done]; rfl, less, left⟩

variable {calls : List (Call Path Time)}

/-- It is enough that all sizes that are ever added come to a `u64`. -/
theorem within_of_sum (sound : Sound l)
    (small : total l.sizes.entries + (calls.map addedSize).sum < 2 ^ 64) : Within l calls := by
  induction calls generalizing l with
  | nil => trivial
  | cons call calls ih =>
    rw [List.map_cons, List.sum_cons] at small
    have fits : Fits l call := by
      cases call with
      | add file size accessed => exact Nat.lt_of_le_of_lt (by simp only [addedSize]; omega) small
      | _ => trivial
    refine ⟨fits, fun next done => ?_⟩
    obtain ⟨same, again, less, kept⟩ := step_sound sound fits
    obtain rfl := Except.ok.inj (again.symm.trans done)
    exact ih kept (by omega)

theorem run_sound (sound : Sound l) (within : Within l calls) :
    ∃ l', run l calls = .ok l' ∧ Sound l' := by
  induction calls generalizing l with
  | nil => exact ⟨l, rfl, sound⟩
  | cons call calls ih =>
    obtain ⟨fits, later⟩ := within
    obtain ⟨next, done, -, kept⟩ := step_sound sound fits
    obtain ⟨last, rest, right⟩ := ih kept (later next done)
    refine ⟨last, ?_, right⟩
    rw [run, List.foldlM_cons, done]
    exact rest

/-- Every pop takes an entry of the table, so there are no more pops than entries. -/
theorem prune_ends {E : Type} (failure : Path → Option E) (sound : Sound l) {fuel : Nat}
    (enough : l.sizes.entries.length < fuel) :
    ∃ pruned, pruneInternal failure fuel l = .ok (some pruned) ∧ Sound pruned.limiter ∧
      pruned.limiter.sizeLimit = l.sizeLimit ∧ pruned.limiter.inUse ≤ l.sizeLimit := by
  induction fuel generalizing l with
  | zero => exact absurd enough (Nat.not_lt_zero _)
  | succ fuel ih =>
    by_cases exceeds : l.sizeLimit < l.inUse
    · obtain ⟨next, time, size, -, -, recorded, popped, left⟩ := pop_exceeds sound exceeds
      have fewer := l.sizes.length_remove_lt recorded
      obtain ⟨pruned, rest, right, same, small⟩ :=
        ih left (show (l.sizes.remove next).entries.length < fuel by omega)
      refine ⟨⟨next :: pruned.files, pruned.lastError.or (failure next), pruned.limiter⟩, ?_,
        right, same, small⟩
      simp only [pruneInternal, popped, rest, bind, Except.bind, Option.map_some]
    · have small := Nat.le_of_not_lt exceeds
      refine ⟨⟨[], none, l⟩, ?_, sound, rfl, small⟩
      simp only [pruneInternal, pop_within small, bind, Except.bind]

/-- Whatever is added, updated, removed and popped, as long as the total of the sizes is within
`u64`: no call overflows or underflows the sum, which is the sum of the sizes on record; the queue
and the table have the same keys; a pop hands out a file exactly above the limit, and then one
with the oldest access time; and popping until there is nothing to pop ends within the limit. -/
theorem limiter_sound (limit : Nat) (calls : List (Call Path Time))
    (within : Within (SizeLimiter.new limit : SizeLimiter queues) calls) :
    ∃ l : SizeLimiter queues, run (.new limit) calls = .ok l ∧
      l.inUse = total l.sizes.entries ∧
      (∀ file, (queues.get l.queue file).isSome = (l.sizes.lookup file).isSome) ∧
      (∃ popped, l.pop = .ok popped ∧ (popped.1.isSome ↔ l.sizeLimit < l.inUse) ∧
        ∀ file, popped.1 = some file → ∃ time, queues.get l.queue file = some (toDual time) ∧
          ∀ other t, queues.get l.queue other = some (toDual t) → time ≤ t) ∧
      ∀ (E : Type) (failure : Path → Option E) (fuel : Nat), l.sizes.entries.length < fuel →
        ∃ pruned, pruneInternal failure fuel l = .ok (some pruned) ∧
          pruned.limiter.inUse ≤ pruned.limiter.sizeLimit := by
  obtain ⟨l, done, sound⟩ := run_sound (sound_new limit) within
  refine ⟨l, done, sound.inUse_eq, sound.same_keys, ?_, ?_⟩
  · by_cases exceeds : l.sizeLimit < l.inUse
    · obtain ⟨next, time, size, there, oldest, -, popped, -⟩ := pop_exceeds sound exceeds
      refine ⟨_, popped, by simp [exceeds], ?_⟩
      rintro file ⟨⟩
      exact ⟨time, there, oldest⟩
    · refine ⟨_, pop_within (Nat.le_of_not_lt exceeds), by simp [exceeds], ?_⟩
      rintro file ⟨⟩
  · intro E failure fuel enough
    obtain ⟨pruned, ended, -, same, small⟩ := prune_ends failure sound enough
    exact ⟨pruned, ended, same ▸ small⟩

/-- Two files of the size 500, of which the first grows and exceeds the limit. -/
theorem overwritten_sound :
    ∃ l : SizeLimiter (ofTable Nat Natᵒᵈ),
      run (.new 1000) [.add 1 500 2, .add 2 500 1, .add 1 600 3] = .ok l ∧
        l.inUse = total l.sizes.entries := by
  have within : Within (SizeLimiter.new 1000 : SizeLimiter (ofTable Nat Natᵒᵈ))
      [.add 1 500 2, .add 2 500 1, .add 1 600 3] :=
    within_of_sum (sound_new 1000) (by decide)
  obtain ⟨l, done, sum, -⟩ := limiter_sound 1000 _ within
  exact ⟨l, done, sum⟩

end Runs

end CacheLimiter
