import Mathlib.Data.List.Basic

/-!
# Short reads

A source hands its elements out in chunks and may fail between them. A read
returns at most what fits into the buffer and at most the rest of a chunk, so
one source stands for one way in which a stream may be cut into short reads.
Reading an exact number of elements repeats reads until the buffer is full.
-/

namespace ShortReads

universe u v
variable {E : Type u} {B : Type v}

/-- What the source has next; a chunk has at least one element. -/
inductive Event (E : Type u) (B : Type v) where
  | chunk (first : B) (rest : List B)
  | failed (why : E)
  deriving DecidableEq

abbrev Source (E : Type u) (B : Type v) := List (Event E B)

/-- The elements that are still to come. -/
def content : Source E B → List B
  | [] => []
  | .chunk first rest :: later => first :: rest ++ content later
  | .failed _ :: later => content later

/-- The source does not fail. -/
def Calm (source : Source E B) : Prop := ∀ why, .failed why ∉ source

/-- One read; nothing is returned at the end of the source only. -/
def read : Nat → Source E B → Except E (List B) × Source E B
  | 0, source => (.ok [], source)
  | _ + 1, [] => (.ok [], [])
  | _ + 1, .failed why :: later => (.error why, later)
  | n + 1, .chunk first rest :: later =>
    match rest.drop n with
    | [] => (.ok (first :: rest), later)
    | next :: more => (.ok (first :: rest.take n), .chunk next more :: later)

inductive Failure (E : Type u) where
  | unexpectedEof
  | failed (why : E)
  deriving DecidableEq

/-- Read until the buffer is full; some failures are passed over. -/
def readExact (retries : E → Bool) : Source E B → Nat → Except (Failure E) (List B) × Source E B
  | source, 0 => (.ok [], source)
  | [], _ + 1 => (.error .unexpectedEof, [])
  | .failed why :: later, n + 1 =>
    if retries why then readExact retries later (n + 1) else (.error (.failed why), later)
  | .chunk first rest :: later, n + 1 =>
    match rest.drop n with
    | [] =>
      let (more, left) := readExact retries later (n - rest.length)
      (more.map fun more => first :: rest ++ more, left)
    | next :: more => (.ok (first :: rest.take n), .chunk next more :: later)

@[simp] theorem content_nil : content ([] : Source E B) = [] := rfl

@[simp] theorem content_chunk (first : B) (rest : List B) (later : Source E B) :
    content (.chunk first rest :: later) = first :: rest ++ content later := rfl

theorem calm_tail {event : Event E B} {later : Source E B} (calm : Calm (event :: later)) :
    Calm later :=
  fun why inside => calm why (List.mem_cons_of_mem _ inside)

theorem calm_chunk {first next : B} {rest more : List B} {later : Source E B}
    (calm : Calm (.chunk first rest :: later)) : Calm (.chunk next more :: later) := by
  rintro why (_ | ⟨_, inside⟩)
  exact calm_tail calm why inside

variable {source : Source E B}

theorem eq_nil_of_content (calm : Calm source) (nothing : content source = []) : source = [] := by
  cases source with
  | nil => rfl
  | cons event later =>
    cases event with
    | chunk first rest => cases nothing
    | failed why => exact absurd (List.mem_cons_self ..) (calm why)

/-- A chunk that does not fit into the buffer. -/
theorem split_of_drop {n : Nat} {rest more : List B} {next : B}
    (kept : rest.drop n = next :: more) :
    (rest.take n).length = n ∧ rest = rest.take n ++ next :: more := by
  have long : n < rest.length := by
    by_contra short
    rw [List.drop_eq_nil_of_le (by omega)] at kept
    cases kept
  exact ⟨List.length_take_of_le (by omega), by rw [← kept, List.take_append_drop]⟩

theorem read_ok {n : Nat} {left : Source E B} {taken : List B}
    (done : read (n + 1) source = (.ok taken, left)) :
    content source = taken ++ content left ∧ (taken = [] → source = []) ∧ taken.length ≤ n + 1 := by
  cases source with
  | nil =>
    cases done
    exact ⟨rfl, fun _ => rfl, Nat.zero_le _⟩
  | cons event later =>
    cases event with
    | failed why => cases done
    | chunk first rest =>
      rw [read] at done
      split at done
      · rename_i short
        cases done
        have bound := List.drop_eq_nil_iff.mp short
        exact ⟨rfl, by simp, by simpa using bound⟩
      · rename_i next more kept
        cases done
        obtain ⟨size, split⟩ := split_of_drop kept
        refine ⟨?_, by simp, by simp [size]⟩
        conv => lhs; rw [content_chunk, split]
        simp

/-- How a read of `n` elements ends. -/
inductive Reading (source : Source E B) (n : Nat) :
    Except (Failure E) (List B) × Source E B → Prop
  | filled {taken : List B} {left : Source E B} (size : taken.length = n)
      (split : content source = taken ++ content left) (calm : Calm source → Calm left) :
      Reading source n (.ok taken, left)
  | failed {why : Failure E} {left : Source E B}
      (ended : Calm source → why = .unexpectedEof ∧ (content source).length < n) :
      Reading source n (.error why, left)

theorem readExact_reading (retries : E → Bool) (source : Source E B) (n : Nat) :
    Reading source n (readExact retries source n) := by
  induction source generalizing n with
  | nil =>
    cases n with
    | zero => exact .filled rfl rfl id
    | succ n => exact .failed fun _ => ⟨rfl, Nat.succ_pos n⟩
  | cons event later ih =>
    cases n with
    | zero =>
      rw [readExact]
      exact .filled rfl rfl id
    | succ n =>
      cases event with
      | failed why =>
        have noisy : ¬ Calm (.failed why :: later) := fun calm => calm why (List.mem_cons_self ..)
        rw [readExact]
        split
        · have reading := ih (n + 1)
          generalize readExact retries later (n + 1) = result at reading
          cases reading with
          | filled size split _ => exact .filled size split fun calm => absurd calm noisy
          | failed _ => exact .failed fun calm => absurd calm noisy
        · exact .failed fun calm => absurd calm noisy
      | chunk first rest =>
        rw [readExact]
        split
        · rename_i short
          have bound := List.drop_eq_nil_iff.mp short
          have reading := ih (n - rest.length)
          generalize readExact retries later (n - rest.length) = result at reading
          cases reading with
          | filled size split calm =>
            refine .filled ?_ ?_ fun before => calm (calm_tail before)
            · simp only [List.length_append, List.length_cons]
              omega
            · rw [content_chunk, split, List.append_assoc]
          | failed ended =>
            refine .failed fun calm => ?_
            obtain ⟨eof, few⟩ := ended (calm_tail calm)
            refine ⟨eof, ?_⟩
            rw [content_chunk, List.length_append, List.length_cons]
            omega
        · rename_i next more kept
          obtain ⟨size, split⟩ := split_of_drop kept
          refine .filled (by rw [List.length_cons, size]) ?_ calm_chunk
          conv => lhs; rw [content_chunk, split]
          simp

theorem read_calm (calm : Calm source) {first : B} {rest : List B}
    (begins : content source = first :: rest) :
    ∃ left, read 1 source = (.ok [first], left) ∧ Calm left ∧ content left = rest := by
  cases source with
  | nil => cases begins
  | cons event later =>
    cases event with
    | failed why => exact absurd (List.mem_cons_self ..) (calm why)
    | chunk head tail =>
      obtain ⟨rfl, rfl⟩ := List.cons.inj begins
      cases tail with
      | nil => exact ⟨later, rfl, calm_tail calm, rfl⟩
      | cons next more => exact ⟨_, rfl, calm_chunk calm, rfl⟩

end ShortReads
