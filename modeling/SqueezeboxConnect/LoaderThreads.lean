import SqueezeboxConnect.Runs
import SqueezeboxConnect.Tables

/-!
# The threads that load tracks

`load_track` spawns a thread and stores its handle in a map, under a lock. The
thread loads the track, sends what it got and removes its handle under the same
lock, whether the handle is there or not. A loader that panics ends the thread
without that. The player calls `load_track` from one thread, so a call has
stored its handle before the next one begins.
-/

namespace LoaderThreads

open Runs Tables

universe u
variable {Data : Type u}

/-- A thread that is `loaded` has sent its data, if there are any; its lock section comes next. -/
inductive Phase where
  | loading
  | loaded
  | finished
  deriving DecidableEq

structure JoinHandle where
  thread : Nat
  deriving DecidableEq

/-- The threads have the numbers in which they were spawned as their ids. -/
structure Loaders (Data : Type u) where
  threads : List Phase
  loadHandles : List (Nat × JoinHandle)
  /-- The handle that a call of `load_track` is going to store. -/
  storing : Option JoinHandle
  results : List (Nat × Data)

def new : Loaders Data := ⟨[], [], none, []⟩

/-- The steps between which the threads can be interrupted. -/
inductive Step (Data : Type u) where
  | spawn
  | insert
  | load (id : Nat) (data : Option Data)
  | panic (id : Nat)
  | remove (id : Nat)

namespace Loaders

variable (s : Loaders Data)

def spawn : Loaders Data :=
  match s.storing with
  | some _ => s
  | none => { s with threads := s.threads ++ [.loading], storing := some ⟨s.threads.length⟩ }

def insert : Loaders Data :=
  match s.storing with
  | some handle =>
    { s with loadHandles := put handle.thread handle s.loadHandles, storing := none }
  | none => s

def load (id : Nat) (data : Option Data) : Loaders Data :=
  if s.threads[id]? = some .loading then
    { s with threads := s.threads.set id .loaded, results := s.results ++ data.toList.map (id, ·) }
  else s

def panic (id : Nat) : Loaders Data :=
  if s.threads[id]? = some .loading then { s with threads := s.threads.set id .finished } else s

def remove (id : Nat) : Loaders Data :=
  if s.threads[id]? = some .loaded then
    { s with threads := s.threads.set id .finished, loadHandles := Tables.remove id s.loadHandles }
  else s

def step (s : Loaders Data) : Step Data → Loaders Data
  | .spawn => s.spawn
  | .insert => s.insert
  | .load id data => s.load id data
  | .panic id => s.panic id
  | .remove id => s.remove id

def AllFinished : Prop := ∀ phase ∈ s.threads, phase = .finished

/-- Once all threads have finished the map is empty. -/
def Accounted : Prop := s.AllFinished → s.loadHandles = []

/-- No handle of a finished thread is in the map. -/
def Live : Prop :=
  ∀ id handle, s.loadHandles.lookup id = some handle → s.threads[id]? ≠ some .finished

/-- The handle that is stored is that of a thread that has not finished, and the handle of a thread
that panics has not been stored. -/
def Timely (s : Loaders Data) : Step Data → Prop
  | .insert => ∀ handle ∈ s.storing, s.threads[handle.thread]? ≠ some .finished
  | .panic id => s.threads[id]? = some .loading → s.loadHandles.lookup id = none
  | _ => True

/-- The handles are those of threads. -/
structure Inv : Prop where
  stored : ∀ id handle, s.loadHandles.lookup id = some handle → id < s.threads.length
  storing : ∀ handle ∈ s.storing, handle.thread < s.threads.length

variable {s} {id : Nat}

theorem phase_set {before : Phase} (found : s.threads[id]? = some before) (after : Phase)
    (other : Nat) : (s.threads.set id after)[other]? =
      if other = id then some after else s.threads[other]? := by
  have inside := (List.getElem?_eq_some_iff.mp found).1
  by_cases same : other = id
  · subst same
    simp [inside]
  · rw [if_neg same, List.getElem?_set_ne (Ne.symm same)]

theorem Inv.spawn (h : Inv s) : Inv s.spawn := by
  unfold Loaders.spawn
  split
  · exact h
  · refine ⟨fun id handle found => ?_, ?_⟩
    · have := h.stored id handle found
      simp only [List.length_append]
      omega
    · rintro handle ⟨⟩
      simp

theorem Inv.insert (h : Inv s) : Inv s.insert := by
  unfold Loaders.insert
  split
  · next handle storing =>
    refine ⟨fun id other found => ?_, nofun⟩
    by_cases same : id = handle.thread
    · rw [same]
      exact h.storing handle storing
    · rw [lookup_put_ne _ _ same] at found
      exact h.stored id other found
  · exact h

theorem Inv.step (h : Inv s) (e : Step Data) : Inv (s.step e) := by
  cases e with
  | spawn => exact h.spawn
  | insert => exact h.insert
  | load id data =>
    simp only [Loaders.step, load]
    split
    · exact ⟨by simpa using h.stored, by simpa using h.storing⟩
    · exact h
  | panic id =>
    simp only [Loaders.step, panic]
    split
    · exact ⟨by simpa using h.stored, by simpa using h.storing⟩
    · exact h
  | remove id =>
    simp only [Loaders.step, remove]
    split
    · refine ⟨fun other handle found => ?_, by simpa using h.storing⟩
      by_cases same : other = id
      · subst same
        simp at found
      · rw [lookup_remove_ne _ same] at found
        simpa using h.stored other handle found
    · exact h

theorem live_spawn (h : Inv s) : Live s.spawn ↔ Live s := by
  unfold spawn
  split
  · rfl
  · refine forall_congr' fun id => forall_congr' fun handle => forall_congr' fun found => ?_
    rw [List.getElem?_append_left (h.stored id handle found)]

theorem live_insert :
    Live s.insert ↔ Live s ∧ ∀ handle ∈ s.storing, s.threads[handle.thread]? ≠ some .finished := by
  unfold insert
  split
  · next handle storing =>
    rw [storing]
    constructor
    · intro live
      have own := live handle.thread handle (lookup_put_self ..)
      refine ⟨fun id other found => ?_, by rintro _ ⟨⟩; exact own⟩
      by_cases same : id = handle.thread
      · rw [same]
        exact own
      · exact live id other ((lookup_put_ne _ _ same).trans found)
    · rintro ⟨live, unfinished⟩ id other found
      by_cases same : id = handle.thread
      · rw [same]
        exact unfinished handle rfl
      · exact live id other ((lookup_put_ne _ _ same).symm.trans found)
  · next nothing =>
    rw [nothing]
    exact ⟨fun live => ⟨live, nofun⟩, And.left⟩

theorem live_load (id : Nat) (data : Option Data) : Live (s.load id data) ↔ Live s := by
  unfold load
  split
  · next found =>
    refine forall_congr' fun other => forall_congr' fun handle => imp_congr_right fun _ => ?_
    dsimp only
    rw [phase_set found]
    split
    · next same =>
      rw [same, found]
      simp
    · rfl
  · rfl

theorem live_panic (id : Nat) :
    Live (s.panic id) ↔
      Live s ∧ (s.threads[id]? = some .loading → s.loadHandles.lookup id = none) := by
  unfold panic
  split
  · next found =>
    constructor
    · intro live
      refine ⟨fun other handle there ended => live other handle there ?_, fun _ => ?_⟩
      · dsimp only
        rw [phase_set found, ended, ite_self]
      · by_contra entry
        obtain ⟨handle, there⟩ := Option.ne_none_iff_exists'.mp entry
        exact live id handle there (by rw [phase_set found, if_pos rfl])
    · rintro ⟨live, absent⟩ other handle there ended
      dsimp only at ended
      rw [phase_set found] at ended
      split at ended
      · next same =>
        rw [same, absent found] at there
        cases there
      · exact live other handle there ended
  · next other => exact ⟨fun live => ⟨live, fun found => absurd found other⟩, And.left⟩

theorem live_remove (id : Nat) : Live (s.remove id) ↔ Live s := by
  unfold remove
  split
  · next found =>
    refine forall_congr' fun other => ?_
    dsimp only
    rw [phase_set found]
    by_cases same : other = id
    · subst same
      simp [found]
    · rw [lookup_remove_ne _ same, if_neg same]
  · rfl

theorem live_step (h : Inv s) (e : Step Data) : Live (s.step e) ↔ Live s ∧ Timely s e := by
  cases e with
  | spawn => exact (live_spawn h).trans (and_iff_left trivial).symm
  | insert => exact live_insert
  | load id data => exact (live_load id data).trans (and_iff_left trivial).symm
  | panic id => exact live_panic id
  | remove id => exact (live_remove id).trans (and_iff_left trivial).symm

theorem empty_iff_live (h : Inv s) (finished : s.AllFinished) : s.loadHandles = [] ↔ Live s := by
  constructor
  · intro empty id handle found
    rw [empty] at found
    cases found
  · intro live
    by_contra entries
    obtain ⟨id, handle, found⟩ := exists_lookup entries
    have inside := h.stored id handle found
    refine live id handle found ?_
    rw [List.getElem?_eq_getElem inside, finished _ (List.getElem_mem inside)]

end Loaders

open Loaders

/-- The threads are accounted for exactly if no handle is stored behind the end of its thread, and
no thread panics whose handle is stored. -/
theorem accounted_iff (steps : List (Step Data)) :
    (run step new steps).Accounted ↔
      ((run step new steps).AllFinished → Along step Timely new steps) := by
  have start : Inv (new : Loaders Data) := ⟨nofun, nofun⟩
  have empty : Live (new : Loaders Data) := nofun
  have inv : Inv (run step new steps) := run_invariant' (fun _ e h => h.step e) steps start
  refine forall_congr' fun finished => ?_
  rw [empty_iff_live inv finished,
    run_iff_along (fun _ e h => h.step e) (fun _ e h => live_step h e) start, and_iff_right empty]

/-- The thread has ended before the call that spawned it gets the lock. -/
def overtaken : List (Step Unit) := [.spawn, .load 0 none, .remove 0, .insert]

theorem overtaken_notAccounted : ¬ (run step new overtaken).Accounted := by
  intro accounted
  exact absurd (accounted (by unfold AllFinished; decide)) (by decide)

end LoaderThreads
