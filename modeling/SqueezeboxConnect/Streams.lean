import Mathlib.Data.List.Induction
import Mathlib.Data.List.TakeWhile

/-!
# Sequences cut at marked elements

A sequence falls into streams, each beginning with a marked element. While the
sequence grows at its end, `current` is the stream it is in. A stream in turn
has a lead, the elements up to the one with which a quota is reached, and a
body behind it; `total` is what has been counted.
-/

namespace Streams

universe u
variable {A : Type u}

section Marks

variable (starts : A → Bool)

/-- A marked element and unmarked ones behind it. -/
def IsStream (xs : List A) : Prop :=
  ∃ first rest, xs = first :: rest ∧ starts first = true ∧ ∀ x ∈ rest, starts x = false

/-- The stream after one more element; what precedes every mark is in no stream. -/
def extend (stream : List A) (x : A) : List A :=
  if starts x then [x] else if stream.isEmpty then [] else stream ++ [x]

/-- The elements from the last marked one on. -/
def current (xs : List A) : List A := xs.foldl (extend starts) []

@[simp] theorem current_nil : current starts [] = [] := rfl

theorem current_concat (xs : List A) (x : A) :
    current starts (xs ++ [x]) = extend starts (current starts xs) x := by
  simp [current]

variable {x : A}

theorem current_mark (xs : List A) (mark : starts x = true) : current starts (xs ++ [x]) = [x] := by
  rw [current_concat, extend, if_pos mark]

theorem current_unmarked {xs : List A} (inside : current starts xs ≠ [])
    (unmarked : starts x = false) : current starts (xs ++ [x]) = current starts xs ++ [x] := by
  have nonempty : (current starts xs).isEmpty = false := by simpa using inside
  simp [current_concat, extend, unmarked, nonempty]

theorem current_suffix (xs : List A) : current starts xs <:+ xs := by
  induction xs using List.reverseRecOn with
  | nil => exact List.suffix_refl []
  | append_singleton xs x ih =>
    rw [current_concat, extend]
    split
    · exact List.suffix_append xs [x]
    · split
      · exact List.nil_suffix
      · obtain ⟨front, split⟩ := ih
        exact ⟨front, by rw [← List.append_assoc, split]⟩

theorem current_isStream {xs : List A} (inside : current starts xs ≠ []) :
    IsStream starts (current starts xs) := by
  induction xs using List.reverseRecOn with
  | nil => exact absurd rfl inside
  | append_singleton xs x ih =>
    by_cases mark : starts x = true
    · rw [current_mark starts xs mark]
      exact ⟨x, [], rfl, mark, by simp⟩
    · have unmarked : starts x = false := by simpa using mark
      have before : current starts xs ≠ [] := by
        intro nothing
        apply inside
        simp [current_concat, extend, unmarked, nothing]
      obtain ⟨first, rest, split, marked, others⟩ := ih before
      refine ⟨first, rest ++ [x], ?_, marked, ?_⟩
      · rw [current_unmarked starts before unmarked, split, List.cons_append]
      · intro y hy
        rcases List.mem_append.mp hy with old | new
        · exact others y old
        · rw [List.mem_singleton.mp new]
          exact unmarked

/-- Unmarked elements at the end belong to the stream before them. -/
theorem current_append {xs ys : List A} (inside : current starts xs ≠ [])
    (unmarked : ∀ y ∈ ys, starts y = false) :
    current starts (xs ++ ys) = current starts xs ++ ys := by
  induction ys using List.reverseRecOn with
  | nil => simp
  | append_singleton ys y ih =>
    have before := ih fun y hy => unmarked y (List.mem_append_left _ hy)
    have nonempty : current starts (xs ++ ys) ≠ [] := by
      rw [before]
      simp [inside]
    rw [← List.append_assoc, current_unmarked starts nonempty (unmarked y (by simp)), before,
      List.append_assoc]

theorem current_of_stream (before : List A) {stream : List A} (h : IsStream starts stream) :
    current starts (before ++ stream) = stream := by
  obtain ⟨first, rest, rfl, mark, unmarked⟩ := h
  have whole : before ++ first :: rest = (before ++ [first]) ++ rest := by simp
  have start : current starts (before ++ [first]) = [first] := current_mark starts before mark
  rw [whole, current_append starts (by simp [start]) unmarked, start]
  rfl

/-- The stream that a sequence is in, as a part of the whole sequence. -/
theorem current_in_whole {xs : List A} (inside : current starts xs ≠ []) (ys : List A) :
    ∃ before more after, xs = before ++ current starts xs ∧ ys = more ++ after ∧
      IsStream starts (current starts xs ++ more) ∧ ∀ y ∈ after.head?, starts y = true := by
  obtain ⟨before, split⟩ := current_suffix starts xs
  obtain ⟨first, rest, whole, mark, unmarked⟩ := current_isStream starts inside
  have stream : IsStream starts (current starts xs ++ ys.takeWhile fun y => !starts y) := by
    refine ⟨first, rest ++ ys.takeWhile fun y => !starts y, ?_, mark, ?_⟩
    · rw [whole, List.cons_append]
    · intro y hy
      rcases List.mem_append.mp hy with old | new
      · exact unmarked y old
      · simpa using List.mem_takeWhile_imp new
  refine ⟨before, _, ys.dropWhile fun y => !starts y, split.symm,
    (List.takeWhile_append_dropWhile ..).symm, stream, ?_⟩
  intro y hy
  have stopped := List.head?_dropWhile_not (fun y => !starts y) ys
  rw [Option.mem_def.mp hy] at stopped
  simpa using stopped

theorem current_ne_nil {xs : List A} (hx : x ∈ xs) (mark : starts x = true) :
    current starts xs ≠ [] := by
  induction xs using List.reverseRecOn with
  | nil => simp at hx
  | append_singleton xs y ih =>
    by_cases last : starts y = true
    · rw [current_mark starts xs last]
      simp
    · rcases List.mem_append.mp hx with old | new
      · rw [current_unmarked starts (ih old) (by simpa using last)]
        simp
      · rw [List.mem_singleton.mp new] at mark
        exact absurd mark last

/-- What precedes a mark does not matter behind it. -/
theorem current_append_of_ne_nil (xs : List A) {ys : List A} (inside : current starts ys ≠ []) :
    current starts (xs ++ ys) = current starts ys := by
  obtain ⟨before, split⟩ := current_suffix starts ys
  conv => lhs; rw [← split, ← List.append_assoc]
  exact current_of_stream starts _ (current_isStream starts inside)

/-- One more element begins a stream or goes to the last one. -/
def grow (streams : List (List A)) (x : A) : List (List A) :=
  if starts x then streams ++ [[x]]
  else
    match streams.getLast? with
    | none => []
    | some last => streams.dropLast ++ [last ++ [x]]

def streams (xs : List A) : List (List A) := xs.foldl (grow starts) []

@[simp] theorem streams_nil : streams starts [] = [] := rfl

theorem streams_concat (xs : List A) (x : A) :
    streams starts (xs ++ [x]) = grow starts (streams starts xs) x := by
  simp [streams]

theorem streams_mark (xs : List A) (mark : starts x = true) :
    streams starts (xs ++ [x]) = streams starts xs ++ [[x]] := by
  rw [streams_concat, grow, if_pos mark]

/-- The current stream is the last one. -/
theorem streams_current {xs : List A} (inside : current starts xs ≠ []) :
    ∃ front, streams starts xs = front ++ [current starts xs] := by
  induction xs using List.reverseRecOn with
  | nil => exact absurd rfl inside
  | append_singleton xs x ih =>
    by_cases mark : starts x = true
    · exact ⟨streams starts xs, by rw [streams_mark starts xs mark, current_mark starts xs mark]⟩
    · have unmarked : starts x = false := by simpa using mark
      have before : current starts xs ≠ [] := by
        intro nothing
        apply inside
        simp [current_concat, extend, unmarked, nothing]
      obtain ⟨front, split⟩ := ih before
      refine ⟨front, ?_⟩
      rw [streams_concat, split, current_unmarked starts before unmarked]
      simp [grow, unmarked]

/-- An unmarked element goes to the last stream. -/
theorem streams_unmarked {xs : List A} (inside : current starts xs ≠ [])
    (unmarked : starts x = false) :
    ∃ front, streams starts xs = front ++ [current starts xs] ∧
      streams starts (xs ++ [x]) = front ++ [current starts xs ++ [x]] := by
  obtain ⟨front, split⟩ := streams_current starts inside
  refine ⟨front, split, ?_⟩
  rw [streams_concat, split]
  simp [grow, unmarked]

theorem isStream_take {stream : List A} (h : IsStream starts stream) {k : Nat} (positive : 0 < k) :
    IsStream starts (stream.take k) := by
  obtain ⟨first, rest, rfl, mark, unmarked⟩ := h
  obtain ⟨k, rfl⟩ : ∃ j, k = j + 1 := ⟨k - 1, by omega⟩
  exact ⟨first, rest.take k, rfl, mark, fun x hx => unmarked x (List.mem_of_mem_take hx)⟩

/-- One stream of a whole sequence. -/
structure Cut (before stream after whole : List A) : Prop where
  split : whole = before ++ stream ++ after
  isStream : IsStream starts stream
  next : ∀ x ∈ after.head?, starts x = true

variable {starts} {before stream after whole xs : List A}

section

variable (cut : Cut starts before stream after whole)
include cut

/-- How far a part of the sequence has got. -/
theorem cut_within (part : xs <+: whole) (after_start : before.length < xs.length)
    (inside : xs.length ≤ before.length + stream.length) :
    current starts xs = stream.take (xs.length - before.length) := by
  have xs_eq : xs = before ++ stream.take (xs.length - before.length) := by
    have taken := List.prefix_iff_eq_take.mp part
    rw [cut.split, List.append_assoc, List.take_append, List.take_of_length_le (by omega),
      List.take_append_of_le_length (by omega)] at taken
    exact taken
  have begun := isStream_take starts cut.isStream (k := xs.length - before.length) (by omega)
  conv => lhs; rw [xs_eq]
  exact current_of_stream starts before begun

theorem cut_beyond (part : xs <+: whole) (beyond : before.length + stream.length < xs.length) :
    before.length + stream.length + (current starts xs).length ≤ xs.length := by
  obtain ⟨ys, rfl⟩ : ∃ ys, xs = (before ++ stream) ++ ys := by
    have front : before ++ stream <+: xs := by
      refine List.prefix_of_prefix_length_le ⟨after, cut.split.symm⟩ part ?_
      rw [List.length_append]
      omega
    obtain ⟨ys, split⟩ := front
    exact ⟨ys, split.symm⟩
  cases ys with
  | nil => simp at beyond
  | cons y ys =>
    have behind : y :: ys <+: after := by
      rw [cut.split] at part
      exact (List.prefix_append_right_inj _).mp part
    have mark : starts y = true := by
      obtain ⟨rest, rfl⟩ := behind
      exact cut.next y rfl
    have later := current_ne_nil starts (List.mem_cons_self (a := y) (l := ys)) mark
    have bound := (current_suffix starts (y :: ys)).length_le
    rw [current_append_of_ne_nil starts _ later]
    simp only [List.length_append]
    omega

theorem cut_before (part : xs <+: whole) (nothing : current starts xs = []) :
    xs.length ≤ before.length := by
  by_cases inside : xs.length ≤ before.length
  · exact inside
  · obtain ⟨first, rest, hstream, mark, -⟩ := cut.isStream
    have front : before ++ [first] <+: xs := by
      refine List.prefix_of_prefix_length_le ?_ part (by simp; omega)
      refine ⟨rest ++ after, ?_⟩
      rw [cut.split, hstream]
      simp
    have hfirst : first ∈ xs := front.subset (by simp)
    exact absurd nothing (current_ne_nil starts hfirst mark)

end

end Marks

section Quota

variable (weight : A → Nat) (quota : Nat)

/-- The elements up to the one with which the count reaches the quota. -/
def lead : Nat → List A → List A
  | _, [] => []
  | count, x :: rest => if count < quota then x :: lead (count + weight x) rest else []

/-- The elements behind the lead. -/
def body : Nat → List A → List A
  | _, [] => []
  | count, x :: rest => if count < quota then body (count + weight x) rest else x :: rest

/-- The count behind the lead. -/
def total : Nat → List A → Nat
  | count, [] => count
  | count, x :: rest => if count < quota then total (count + weight x) rest else count

theorem lead_append_body (count : Nat) (xs : List A) :
    lead weight quota count xs ++ body weight quota count xs = xs := by
  induction xs generalizing count with
  | nil => rfl
  | cons x rest ih =>
    simp only [lead, body]
    split
    · rw [List.cons_append, ih]
    · rfl

variable {count : Nat}

theorem lead_full (full : quota ≤ count) (xs : List A) : lead weight quota count xs = [] := by
  cases xs with
  | nil => rfl
  | cons x rest => rw [lead, if_neg (by omega)]

theorem body_full (full : quota ≤ count) (xs : List A) : body weight quota count xs = xs := by
  cases xs with
  | nil => rfl
  | cons x rest => rw [body, if_neg (by omega)]

theorem total_full (full : quota ≤ count) (xs : List A) : total weight quota count xs = count := by
  cases xs with
  | nil => rfl
  | cons x rest => rw [total, if_neg (by omega)]

theorem lead_append (count : Nat) (xs ys : List A) :
    lead weight quota count (xs ++ ys) =
      lead weight quota count xs ++ lead weight quota (total weight quota count xs) ys := by
  induction xs generalizing count with
  | nil => rfl
  | cons x rest ih =>
    simp only [List.cons_append, lead, total]
    split
    · rw [ih, List.cons_append]
    · rw [List.nil_append, lead_full weight quota (by omega)]

theorem body_append (count : Nat) (xs ys : List A) :
    body weight quota count (xs ++ ys) =
      body weight quota count xs ++ body weight quota (total weight quota count xs) ys := by
  induction xs generalizing count with
  | nil => rfl
  | cons x rest ih =>
    simp only [List.cons_append, body, total]
    split
    · exact ih _
    · rw [body_full weight quota (by omega), List.cons_append]

theorem total_append (count : Nat) (xs ys : List A) :
    total weight quota count (xs ++ ys) =
      total weight quota (total weight quota count xs) ys := by
  induction xs generalizing count with
  | nil => rfl
  | cons x rest ih =>
    simp only [List.cons_append, total]
    split
    · exact ih _
    · rw [total_full weight quota (by omega)]

/-- Below the quota everything is lead. -/
theorem body_of_total_lt {xs : List A} (below : total weight quota count xs < quota) :
    body weight quota count xs = [] := by
  induction xs generalizing count with
  | nil => rfl
  | cons x rest ih =>
    simp only [body, total] at below ⊢
    split
    · rename_i inside
      rw [if_pos inside] at below
      exact ih below
    · rename_i outside
      rw [if_neg outside] at below
      omega

theorem total_lead (count : Nat) (xs : List A) :
    total weight quota count (lead weight quota count xs) = total weight quota count xs := by
  induction xs generalizing count with
  | nil => rfl
  | cons x rest ih =>
    simp only [lead, total]
    split
    · rename_i inside
      rw [total, if_pos inside]
      exact ih _
    · rfl

theorem body_lead (count : Nat) (xs : List A) :
    body weight quota count (lead weight quota count xs) = [] := by
  induction xs generalizing count with
  | nil => rfl
  | cons x rest ih =>
    simp only [lead]
    split
    · rename_i inside
      rw [body, if_pos inside]
      exact ih _
    · rfl

end Quota

end Streams
