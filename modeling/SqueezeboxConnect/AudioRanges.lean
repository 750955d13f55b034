import Mathlib.Algebra.Ring.Nat
import Mathlib.Data.List.Basic

/-!
# Sets of byte ranges

A range set is a list of ranges in ascending order. Adding a range merges it
with all ranges it overlaps or touches, subtracting a range cuts it out. The
sizes are machine words and the arithmetic on them wraps; the word size is a
parameter. As long as no range ends beyond the largest word, the operations
are those on sets of positions.
-/

namespace AudioRanges

variable (word : Nat)

def wrappingAdd (a b : Nat) : Nat := (a + b) % word

def wrappingSub (a b : Nat) : Nat := (a + word - b) % word

structure Range where
  start : Nat
  length : Nat
  deriving DecidableEq

namespace Range

/-- The `end()` of a range. -/
def stop (word : Nat) (r : Range) : Nat := wrappingAdd word r.start r.length

def Holds (r : Range) (p : Nat) : Prop := r.start ≤ p ∧ p < r.start + r.length

instance (r : Range) (p : Nat) : Decidable (r.Holds p) :=
  inferInstanceAs (Decidable (r.start ≤ p ∧ p < r.start + r.length))

/-- The end of the range is a machine word. -/
def Fits (word : Nat) (r : Range) : Prop := r.start + r.length < word

end Range

abbrev RangeSet := List Range

def len (ranges : RangeSet) : Nat :=
  ranges.foldl (fun sum r => wrappingAdd word sum r.length) 0

def contains (word : Nat) : RangeSet → Nat → Bool
  | [], _ => false
  | r :: rest, value =>
    if value < r.start then false
    else if r.start ≤ value ∧ value < r.stop word then true
    else contains word rest value

def containedLengthFromValue (word : Nat) : RangeSet → Nat → Nat
  | [], _ => 0
  | r :: rest, value =>
    if value < r.start then 0
    else if r.start ≤ value ∧ value < r.stop word then wrappingSub word (r.stop word) value
    else containedLengthFromValue word rest value

def containsRangeSet (ranges other : RangeSet) : Bool :=
  other.all fun range => range.length ≤ containedLengthFromValue word ranges range.start

def merge (range r : Range) : Range :=
  let newEnd := max (range.stop word) (r.stop word)
  let start := min range.start r.start
  ⟨start, wrappingSub word newEnd start⟩

/-- The inner loop of `add_range`: the ranges that the new one reaches are merged into it. -/
def absorb (word : Nat) (range : Range) : RangeSet → RangeSet
  | [] => [range]
  | r :: rest =>
    if r.start ≤ range.stop word then absorb word (merge word range r) rest
    else range :: r :: rest

/-- The outer loop of `add_range`. -/
def insertRange (word : Nat) (range : Range) : RangeSet → RangeSet
  | [] => [range]
  | r :: rest =>
    if range.stop word < r.start then range :: r :: rest
    else if range.start ≤ r.stop word ∧ r.start ≤ range.stop word then absorb word range (r :: rest)
    else r :: insertRange word range rest

def addRange (range : Range) (ranges : RangeSet) : RangeSet :=
  if range.length = 0 then ranges else insertRange word range ranges

def addRangeSet (ranges other : RangeSet) : RangeSet :=
  other.foldl (fun ranges range => addRange word range ranges) ranges

def union (ranges other : RangeSet) : RangeSet := addRangeSet word ranges other

/-- What is left of a range behind another one that reaches into it. -/
def cutFront (range r : Range) : Range :=
  ⟨range.stop word, wrappingSub word r.length (wrappingSub word (range.stop word) r.start)⟩

/-- What is left of a range in front of another one. -/
def cutBack (range r : Range) : Range :=
  ⟨r.start, wrappingSub word range.start r.start⟩

/-- The inner loop of `subtract_range`, from the first range that does not begin before it. -/
def trim (word : Nat) (range : Range) : RangeSet → RangeSet
  | [] => []
  | r :: rest =>
    if r.stop word ≤ range.stop word then trim word range rest
    else if r.start < range.stop word then cutFront word range r :: rest
    else r :: rest

/-- The outer loop of `subtract_range`. -/
def cutOut (word : Nat) (range : Range) : RangeSet → RangeSet
  | [] => []
  | r :: rest =>
    if range.stop word ≤ r.start then r :: rest
    else if range.start ≤ r.start ∧ r.start < range.stop word then trim word range (r :: rest)
    else if range.stop word < r.stop word then cutBack word range r :: cutFront word range r :: rest
    else if range.start < r.stop word then cutBack word range r :: cutOut word range rest
    else r :: cutOut word range rest

def subtractRange (range : Range) (ranges : RangeSet) : RangeSet :=
  if range.length = 0 then ranges else cutOut word range ranges

def subtractRangeSet (ranges other : RangeSet) : RangeSet :=
  other.foldl (fun ranges range => subtractRange word range ranges) ranges

def minus (ranges other : RangeSet) : RangeSet := subtractRangeSet word ranges other

/-- The loop of `intersection`, with the result so far. -/
def intersectionLoop (word : Nat) : RangeSet → RangeSet → RangeSet → RangeSet
  | [], _, result => result
  | _ :: _, [], result => result
  | a :: as, b :: bs, result =>
    if a.stop word ≤ b.start then intersectionLoop word as (b :: bs) result
    else if b.stop word ≤ a.start then intersectionLoop word (a :: as) bs result
    else
      let newStart := max a.start b.start
      let newEnd := min (a.stop word) (b.stop word)
      let result := addRange word ⟨newStart, wrappingSub word newEnd newStart⟩ result
      if a.stop word ≤ b.stop word then intersectionLoop word as (b :: bs) result
      else intersectionLoop word (a :: as) bs result
termination_by as bs => as.length + bs.length

def intersection (ranges other : RangeSet) : RangeSet :=
  intersectionLoop word ranges other []

variable {r range : Range} {low : Nat} {ranges result : RangeSet}

section Words

theorem wrappingAdd_eq {word a b : Nat} (fits : a + b < word) : wrappingAdd word a b = a + b :=
  Nat.mod_eq_of_lt fits

theorem wrappingSub_eq {word a b : Nat} (le : b ≤ a) (fits : a < word) :
    wrappingSub word a b = a - b := by
  have same : a + word - b = (a - b) + word := by omega
  rw [wrappingSub, same, Nat.add_mod_right, Nat.mod_eq_of_lt (by omega)]

theorem stop_eq {word : Nat} (fits : r.Fits word) : r.stop word = r.start + r.length :=
  wrappingAdd_eq fits

end Words

def Covers (ranges : RangeSet) (p : Nat) : Prop := ∃ r ∈ ranges, r.Holds p

@[simp] theorem covers_nil (p : Nat) : ¬ Covers [] p := by
  rintro ⟨r, inside, -⟩
  cases inside

@[simp] theorem covers_cons (r : Range) (rest : RangeSet) (p : Nat) :
    Covers (r :: rest) p ↔ r.Holds p ∨ Covers rest p := by
  simp [Covers]

/-- Nonempty ranges in ascending order from a position on, with a gap between any two. -/
def Sorted (word : Nat) : Nat → RangeSet → Prop
  | _, [] => True
  | low, r :: rest =>
    low ≤ r.start ∧ 0 < r.length ∧ r.Fits word ∧ Sorted word (r.start + r.length + 1) rest

section Order

variable {word : Nat}

section

variable (sorted : Sorted word low ranges)
include sorted

theorem sorted_mono {low' : Nat} (le : low' ≤ low) : Sorted word low' ranges := by
  cases ranges with
  | nil => trivial
  | cons r rest => exact ⟨by have := sorted.1; omega, sorted.2⟩

theorem sorted_start : ∀ r ∈ ranges, low ≤ r.start ∧ 0 < r.length ∧ r.Fits word := by
  induction ranges generalizing low with
  | nil => simp
  | cons r rest ih =>
    obtain ⟨above, filled, fits, later⟩ := sorted
    rintro s (_ | ⟨_, inside⟩)
    · exact ⟨above, filled, fits⟩
    · have behind := ih later s inside
      exact ⟨by omega, behind.2⟩

theorem covers_above {p : Nat} (covers : Covers ranges p) : low ≤ p := by
  obtain ⟨r, inside, holds⟩ := covers
  have start := (sorted_start sorted r inside).1
  have first := holds.1
  omega

theorem sorted_take (n : Nat) : Sorted word low (ranges.take n) := by
  induction ranges generalizing low n with
  | nil => simp [Sorted]
  | cons r rest ih =>
    cases n with
    | zero => trivial
    | succ n =>
      obtain ⟨above, filled, fits, later⟩ := sorted
      exact ⟨above, filled, fits, ih later n⟩

end

end Order

section Reading

variable {word : Nat}

section

variable (sorted : Sorted word low ranges)
include sorted

theorem contains_iff (p : Nat) : contains word ranges p = true ↔ Covers ranges p := by
  induction ranges generalizing low with
  | nil => simp [contains]
  | cons r rest ih =>
    obtain ⟨above, filled, fits, later⟩ := sorted
    have behind : Covers rest p → r.start + r.length + 1 ≤ p := covers_above later
    rw [contains, stop_eq fits, covers_cons, Range.Holds]
    split
    · constructor
      · intro impossible
        cases impossible
      · rintro (holds | covers)
        · omega
        · have := behind covers
          omega
    · split
      · rename_i holds
        simp [holds]
      · rename_i outside
        rw [ih later]
        constructor
        · exact Or.inr
        · rintro (holds | covers)
          · exact absurd holds outside
          · exact covers

theorem range_below {bound : Nat} (below : ∀ p, Covers ranges p → p < bound) :
    ∀ r ∈ ranges, r.start + r.length ≤ bound := by
  intro r inside
  have filled := (sorted_start sorted r inside).2.1
  have last := below (r.start + r.length - 1) ⟨r, inside, by constructor <;> omega⟩
  omega

/-- All positions from the value on, as many as the result says, are in the set, and no more. -/
theorem containedLength_spec (value : Nat) :
    (∀ p, value ≤ p → p < value + containedLengthFromValue word ranges value → Covers ranges p) ∧
      ¬ Covers ranges (value + containedLengthFromValue word ranges value) := by
  induction ranges generalizing low with
  | nil =>
    refine ⟨fun p above below => ?_, covers_nil _⟩
    simp only [containedLengthFromValue] at below
    omega
  | cons r rest ih =>
    obtain ⟨above, filled, fits, later⟩ := sorted
    have word_gt : r.start + r.length < word := fits
    have behind : ∀ p, Covers rest p → r.start + r.length + 1 ≤ p := fun p => covers_above later
    obtain ⟨covered, stops⟩ := ih later
    rw [containedLengthFromValue, stop_eq fits]
    simp only [covers_cons, Range.Holds]
    split
    · refine ⟨fun p _ _ => by omega, ?_⟩
      rintro (holds | covers)
      · omega
      · have := behind _ covers
        omega
    · split
      · rw [wrappingSub_eq (by omega) fits]
        refine ⟨fun p _ _ => .inl (by omega), ?_⟩
        rintro (held | covers)
        · omega
        · have := behind _ covers
          omega
      · refine ⟨fun p above below => .inr (covered p above below), ?_⟩
        rintro (held | covers)
        · omega
        · exact stops covers

theorem le_containedLength_iff (value n : Nat) :
    n ≤ containedLengthFromValue word ranges value ↔
      ∀ p, value ≤ p → p < value + n → Covers ranges p := by
  constructor
  · intro short p above below
    exact (containedLength_spec sorted value).1 p above (by omega)
  · intro covers
    by_contra long
    exact (containedLength_spec sorted value).2 (covers _ (by omega) (by omega))

theorem containsRangeSet_iff (other : RangeSet) :
    containsRangeSet word ranges other = true ↔ ∀ p, Covers other p → Covers ranges p := by
  simp only [containsRangeSet, List.all_eq_true, decide_eq_true_eq, le_containedLength_iff sorted]
  constructor
  · rintro inside p ⟨r, member, holds⟩
    exact inside r member p holds.1 holds.2
  · intro inside r member p above below
    exact inside p ⟨r, member, above, below⟩

theorem sum_lengths_lt : ranges = [] ∨ low + (ranges.map Range.length).sum < word := by
  induction ranges generalizing low with
  | nil => exact Or.inl rfl
  | cons r rest ih =>
    obtain ⟨above, filled, fits, later⟩ := sorted
    have word_gt : r.start + r.length < word := fits
    right
    rw [List.map_cons, List.sum_cons]
    rcases ih later with nothing | bound
    · rw [nothing, List.map_nil, List.sum_nil]
      omega
    · omega

theorem len_eq : len word ranges = (ranges.map Range.length).sum := by
  have added : ∀ (ranges : RangeSet) (sum : Nat), sum + (ranges.map Range.length).sum < word →
      ranges.foldl (fun sum r => wrappingAdd word sum r.length) sum =
        sum + (ranges.map Range.length).sum := by
    intro ranges
    induction ranges with
    | nil => exact fun _ _ => rfl
    | cons r rest ih =>
      intro sum bound
      rw [List.map_cons, List.sum_cons] at bound ⊢
      rw [List.foldl_cons, wrappingAdd_eq (by omega), ih _ (by omega)]
      omega
  rcases sum_lengths_lt sorted with rfl | bound
  · rfl
  · rw [len, added ranges 0 (by omega), Nat.zero_add]

end

end Reading

section Adding

variable {word : Nat}

theorem merge_spec (fits : range.Fits word) (fits' : r.Fits word)
    (touches : range.start ≤ r.start + r.length) (reaches : r.start ≤ range.start + range.length) :
    (merge word range r).start = min range.start r.start ∧
      (merge word range r).start + (merge word range r).length =
        max (range.start + range.length) (r.start + r.length) ∧
      ∀ p, (merge word range r).Holds p ↔ range.Holds p ∨ r.Holds p := by
  have size : (merge word range r).length =
      max (range.start + range.length) (r.start + r.length) - min range.start r.start := by
    simp only [merge, stop_eq fits, stop_eq fits']
    simp only [Range.Fits] at fits fits'
    exact wrappingSub_eq (by omega) (by omega)
  have start : (merge word range r).start = min range.start r.start := rfl
  refine ⟨start, ?_, ?_⟩
  · rw [size, start]
    omega
  · intro p
    rw [Range.Holds, Range.Holds, Range.Holds, size, start]
    omega

theorem absorb_spec (sorted : Sorted word low ranges) (above : low ≤ range.start)
    (positive : 0 < range.length) (fits : range.Fits word)
    (touches : ∀ r ∈ ranges, range.start ≤ r.start + r.length) :
    Sorted word low (absorb word range ranges) ∧
      ∀ p, Covers (absorb word range ranges) p ↔ range.Holds p ∨ Covers ranges p := by
  induction ranges generalizing range with
  | nil => exact ⟨⟨above, positive, fits, trivial⟩, fun p => by simp [absorb]⟩
  | cons r rest ih =>
    have whole := sorted
    obtain ⟨above', filled', fits', later⟩ := sorted
    rw [absorb, stop_eq fits]
    split
    · rename_i reaches
      obtain ⟨start, stop, holds⟩ := merge_spec fits fits' (touches r (by simp)) reaches
      simp only [Range.Fits] at fits fits'
      obtain ⟨sorted, covers⟩ := @ih (merge word range r) (sorted_mono later (by omega))
        (by omega) (by omega) (by rw [Range.Fits]; omega) (by
          intro s inside
          have := touches s (by simp [inside])
          omega)
      refine ⟨sorted, ?_⟩
      intro p
      rw [covers, holds, covers_cons, or_assoc]
    · rename_i apart
      refine ⟨⟨above, positive, fits, ?_⟩, fun p => by simp⟩
      exact ⟨by omega, whole.2⟩

theorem insertRange_spec (sorted : Sorted word low ranges) (above : low ≤ range.start)
    (positive : 0 < range.length) (fits : range.Fits word) :
    Sorted word low (insertRange word range ranges) ∧
      ∀ p, Covers (insertRange word range ranges) p ↔ range.Holds p ∨ Covers ranges p := by
  induction ranges generalizing low with
  | nil => exact ⟨⟨above, positive, fits, trivial⟩, fun p => by simp [insertRange]⟩
  | cons r rest ih =>
    have whole := sorted
    obtain ⟨above', filled', fits', later⟩ := sorted
    rw [insertRange, stop_eq fits, stop_eq fits']
    split
    · rename_i before
      exact ⟨⟨above, positive, fits, by omega, whole.2⟩, fun p => by simp⟩
    · split
      · rename_i touches
        refine absorb_spec whole above positive fits ?_
        rintro s (_ | ⟨_, inside⟩)
        · exact touches.1
        · have behind := (sorted_start later s inside).1
          omega
      · obtain ⟨sorted, covers⟩ := ih later (by omega)
        refine ⟨⟨above', filled', fits', sorted⟩, ?_⟩
        intro p
        rw [covers_cons, covers_cons, covers, or_left_comm]

theorem addRange_spec (sorted : Sorted word low ranges) (above : low ≤ range.start)
    (fits : range.Fits word) :
    Sorted word low (addRange word range ranges) ∧
      ∀ p, Covers (addRange word range ranges) p ↔ range.Holds p ∨ Covers ranges p := by
  rw [addRange]
  split
  · rename_i empty
    refine ⟨sorted, ?_⟩
    intro p
    rw [Range.Holds]
    constructor
    · exact Or.inr
    · rintro (holds | covers)
      · omega
      · exact covers
  · exact insertRange_spec sorted above (by omega) fits

theorem addRangeSet_spec {low' : Nat} {other : RangeSet} (sorted : Sorted word 0 ranges)
    (sorted' : Sorted word low' other) :
    Sorted word 0 (addRangeSet word ranges other) ∧
      ∀ p, Covers (addRangeSet word ranges other) p ↔ Covers ranges p ∨ Covers other p := by
  induction other generalizing ranges low' with
  | nil => exact ⟨sorted, fun p => by simp [addRangeSet]⟩
  | cons r rest ih =>
    obtain ⟨above, filled, fits, later⟩ := sorted'
    obtain ⟨first, covers⟩ := addRange_spec sorted (Nat.zero_le r.start) fits
    obtain ⟨sorted, covers'⟩ := ih first later
    refine ⟨sorted, ?_⟩
    intro p
    rw [covers_cons, or_left_comm, ← or_assoc, ← covers]
    exact covers' p

theorem addRange_nil {range : Range} (fits : range.Fits word) :
    Sorted word 0 (addRange word range []) ∧
      ∀ p, Covers (addRange word range []) p ↔ range.Holds p := by
  have empty : Sorted word 0 [] := trivial
  simpa using addRange_spec empty (Nat.zero_le range.start) fits

end Adding

section Subtracting

variable {word : Nat}

theorem cutFront_spec (fits : range.Fits word) (fits' : r.Fits word)
    (reaches : r.start ≤ range.start + range.length)
    (inside : range.start + range.length < r.start + r.length) :
    cutFront word range r = ⟨range.start + range.length,
      r.start + r.length - (range.start + range.length)⟩ := by
  simp only [Range.Fits] at fits fits'
  have first : wrappingSub word (range.start + range.length) r.start =
      range.start + range.length - r.start := wrappingSub_eq reaches fits
  rw [cutFront, stop_eq fits, first, wrappingSub_eq (by omega) (by omega)]
  congr 1
  omega

theorem cutBack_spec (fits : range.Fits word) (behind : r.start ≤ range.start) :
    cutBack word range r = ⟨r.start, range.start - r.start⟩ := by
  simp only [Range.Fits] at fits
  rw [cutBack, wrappingSub_eq behind (by omega)]

theorem sorted_cutFront {low : Nat} {range r : Range} {rest : RangeSet} (fits : range.Fits word)
    (fits' : r.Fits word) (reaches : r.start ≤ range.start + range.length)
    (inside : range.start + range.length < r.start + r.length)
    (above : low ≤ range.start + range.length)
    (later : Sorted word (r.start + r.length + 1) rest) :
    Sorted word low (cutFront word range r :: rest) := by
  have whole : range.start + range.length + (r.start + r.length - (range.start + range.length)) =
      r.start + r.length := by omega
  rw [cutFront_spec fits fits' reaches inside]
  refine ⟨above, by simp only; omega, ?_, ?_⟩
  · simp only [Range.Fits, whole]
    exact fits'
  · simp only [whole]
    exact later

theorem sorted_cutBack {next : Nat} {rest : RangeSet} (fits : range.Fits word)
    (above : low ≤ r.start) (begins : r.start < range.start) (gap : range.start < next)
    (later : Sorted word next rest) : Sorted word low (cutBack word range r :: rest) := by
  have whole : r.start + (range.start - r.start) = range.start := by omega
  rw [cutBack_spec fits (by omega)]
  refine ⟨above, by simp only; omega, ?_, ?_⟩
  · simp only [Range.Fits, whole] at fits ⊢
    omega
  · simp only [whole]
    exact sorted_mono later gap

theorem covers_behind {rest : RangeSet} (later : Sorted word low rest)
    (below : range.start + range.length ≤ low) (p : Nat) :
    Covers rest p ↔ Covers rest p ∧ ¬ range.Holds p := by
  constructor
  · intro covered
    have first := covers_above later covered
    exact ⟨covered, fun held => by have last := held.2; omega⟩
  · exact fun both => both.1

theorem covers_cut {range r : Range} {parts rest rest' : RangeSet} {p : Nat}
    (first : Covers parts p ↔ r.Holds p ∧ ¬ range.Holds p)
    (others : Covers rest' p ↔ Covers rest p ∧ ¬ range.Holds p) :
    Covers (parts ++ rest') p ↔ Covers (r :: rest) p ∧ ¬ range.Holds p := by
  have both : Covers (parts ++ rest') p ↔ Covers parts p ∨ Covers rest' p := by
    simp [Covers, or_and_right, exists_or]
  rw [both, covers_cons, first, others, or_and_right]

section

variable (sorted : Sorted word low ranges)
include sorted

theorem trim_spec (fits : range.Fits word) (below : range.start ≤ low) :
    Sorted word low (trim word range ranges) ∧
      ∀ p, Covers (trim word range ranges) p ↔ Covers ranges p ∧ ¬ range.Holds p := by
  induction ranges generalizing low with
  | nil => exact ⟨trivial, fun p => by simp [trim]⟩
  | cons r rest ih =>
    have whole := sorted
    obtain ⟨above, filled, fits', later⟩ := sorted
    rw [trim, stop_eq fits, stop_eq fits']
    split
    · rename_i inside
      obtain ⟨sorted, covers⟩ := ih later (by omega)
      refine ⟨sorted_mono sorted (by omega), ?_⟩
      intro p
      refine @covers_cut range r [] rest _ p ?_ (covers p)
      simp only [covers_nil, Range.Holds, false_iff]
      omega
    · split
      · rename_i longer reaches
        refine ⟨sorted_cutFront fits fits' (by omega) (by omega) (by omega) later, ?_⟩
        intro p
        refine @covers_cut range r [_] rest rest p ?_ (covers_behind later (by omega) p)
        rw [cutFront_spec fits fits' (by omega) (by omega)]
        simp only [covers_cons, covers_nil, or_false, Range.Holds]
        omega
      · have from_start : Sorted word r.start (r :: rest) := ⟨Nat.le_refl _, whole.2⟩
        exact ⟨whole, covers_behind from_start (by omega)⟩

theorem cutOut_spec (positive : 0 < range.length) (fits : range.Fits word) :
    Sorted word low (cutOut word range ranges) ∧
      ∀ p, Covers (cutOut word range ranges) p ↔ Covers ranges p ∧ ¬ range.Holds p := by
  induction ranges generalizing low with
  | nil => exact ⟨trivial, fun p => by simp [cutOut]⟩
  | cons r rest ih =>
    have whole := sorted
    obtain ⟨above, filled', fits', later⟩ := sorted
    have from_start : Sorted word r.start (r :: rest) := ⟨Nat.le_refl _, whole.2⟩
    rw [cutOut, stop_eq fits, stop_eq fits']
    split
    · rename_i before
      exact ⟨whole, covers_behind from_start before⟩
    · split
      · rename_i begins
        obtain ⟨sorted, covers⟩ := trim_spec from_start fits begins.1
        exact ⟨sorted_mono sorted above, covers⟩
      · split
        · rename_i hole
          -- the range is cut into two
          have behind := @sorted_cutFront word (range.start + range.length) range r rest fits fits'
            (by omega) hole (Nat.le_refl _) later
          refine ⟨sorted_cutBack fits above (by omega) (by omega) behind, ?_⟩
          intro p
          refine @covers_cut range r [_, _] rest rest p ?_ (covers_behind later (by omega) p)
          rw [cutFront_spec fits fits' (by omega) hole, cutBack_spec fits (by omega)]
          simp only [covers_cons, covers_nil, or_false, Range.Holds]
          omega
        · obtain ⟨sorted, covers⟩ := ih later
          split
          · rename_i truncates
            refine ⟨sorted_cutBack fits above (by omega) (by omega) sorted, ?_⟩
            intro p
            refine @covers_cut range r [_] rest _ p ?_ (covers p)
            rw [cutBack_spec fits (by omega)]
            simp only [covers_cons, covers_nil, or_false, Range.Holds]
            omega
          · refine ⟨⟨above, filled', fits', sorted⟩, ?_⟩
            intro p
            refine @covers_cut range r [r] rest _ p ?_ (covers p)
            simp only [covers_cons, covers_nil, or_false, Range.Holds]
            omega

theorem subtractRange_spec (fits : range.Fits word) :
    Sorted word low (subtractRange word range ranges) ∧
      ∀ p, Covers (subtractRange word range ranges) p ↔ Covers ranges p ∧ ¬ range.Holds p := by
  rw [subtractRange]
  split
  · rename_i empty
    refine ⟨sorted, ?_⟩
    intro p
    have outside : ¬ range.Holds p := by
      rw [Range.Holds]
      omega
    simp [outside]
  · exact cutOut_spec sorted (by omega) fits

theorem subtractRangeSet_spec {low' : Nat} {other : RangeSet} (sorted' : Sorted word low' other) :
    Sorted word low (subtractRangeSet word ranges other) ∧
      ∀ p, Covers (subtractRangeSet word ranges other) p ↔ Covers ranges p ∧ ¬ Covers other p := by
  induction other generalizing ranges low' with
  | nil => exact ⟨sorted, fun p => by simp [subtractRangeSet]⟩
  | cons r rest ih =>
    obtain ⟨above, filled, fits, later⟩ := sorted'
    obtain ⟨first, covers⟩ := subtractRange_spec sorted fits
    obtain ⟨sorted, covers'⟩ := ih first later
    refine ⟨sorted, ?_⟩
    intro p
    rw [covers_cons, not_or, ← and_assoc, ← covers]
    exact covers' p

end

end Subtracting

section Intersecting

variable {word : Nat}

/-- A range that begins behind a set has nothing in common with it, wherever it ends. -/
theorem intersectionLoop_behind {a : Range} {bs : RangeSet}
    (behind : ∀ b ∈ bs, b.stop word ≤ a.start) : intersectionLoop word [a] bs result = result := by
  induction bs with
  | nil => rw [intersectionLoop]
  | cons b bs ih =>
    rw [intersectionLoop]
    split
    · rw [intersectionLoop]
    · rw [if_pos (behind b (by simp)), ih fun r member => behind r (by simp [member])]

theorem overlap_spec {a b : Range} (fits : a.Fits word) (fits' : b.Fits word)
    (reaches : b.start < a.start + a.length) (reaches' : a.start < b.start + b.length)
    (done : Sorted word 0 result) : let range : Range := ⟨max a.start b.start,
      wrappingSub word (min (a.stop word) (b.stop word)) (max a.start b.start)⟩
    Sorted word 0 (addRange word range result) ∧
      ∀ p, Covers (addRange word range result) p ↔ Covers result p ∨ a.Holds p ∧ b.Holds p := by
  intro range
  have size : range.length =
      min (a.start + a.length) (b.start + b.length) - max a.start b.start := by
    simp only [range, stop_eq fits, stop_eq fits']
    simp only [Range.Fits] at fits fits'
    exact wrappingSub_eq (by omega) (by omega)
  have start : range.start = max a.start b.start := rfl
  have inside : range.Fits word := by
    simp only [Range.Fits] at fits fits' ⊢
    omega
  obtain ⟨sorted, covers⟩ := addRange_spec done (Nat.zero_le range.start) inside
  refine ⟨sorted, ?_⟩
  intro p
  rw [covers, or_comm, Range.Holds, Range.Holds, Range.Holds, size, start]
  refine or_congr_right ?_
  omega

/-- Positions of a range that ends before a set goes on are not in that set. -/
theorem not_covers_behind (sorted : Sorted word low ranges) (below : r.start + r.length ≤ low)
    {p : Nat} (holds : r.Holds p) : ¬ Covers ranges p := by
  intro covered
  have first := covers_above sorted covered
  have last := holds.2
  omega

theorem common_skip {a : Range} {as bs : RangeSet} {p : Nat} (apart : a.Holds p → ¬ Covers bs p) :
    Covers (a :: as) p ∧ Covers bs p ↔ Covers as p ∧ Covers bs p := by
  rw [covers_cons, or_and_right, or_iff_right]
  rintro ⟨holds, covered⟩
  exact apart holds covered

theorem common_first {a b : Range} {as bs : RangeSet} {p : Nat}
    (apart : a.Holds p → ¬ Covers bs p) :
    Covers (a :: as) p ∧ Covers (b :: bs) p ↔
      a.Holds p ∧ b.Holds p ∨ Covers as p ∧ Covers (b :: bs) p := by
  have part : a.Holds p ∧ Covers (b :: bs) p ↔ a.Holds p ∧ b.Holds p := by
    rw [covers_cons, and_or_left, or_iff_left]
    rintro ⟨holds, covered⟩
    exact apart holds covered
  rw [covers_cons a, or_and_right, part]

theorem intersectionLoop_spec {low' : Nat} {as bs : RangeSet} (sorted : Sorted word low as)
    (sorted' : Sorted word low' bs) (done : Sorted word 0 result) :
    Sorted word 0 (intersectionLoop word as bs result) ∧
      ∀ p, Covers (intersectionLoop word as bs result) p ↔
        Covers result p ∨ Covers as p ∧ Covers bs p := by
  induction as, bs, result using intersectionLoop.induct word generalizing low low' with
  | case1 bs result =>
    rw [intersectionLoop]
    exact ⟨done, fun p => by simp⟩
  | case2 a as result =>
    rw [intersectionLoop]
    exact ⟨done, fun p => by simp⟩
  | case3 a as b bs result skip ih =>
    rw [intersectionLoop, if_pos skip]
    obtain ⟨-, -, fits, later⟩ := sorted
    rw [stop_eq fits] at skip
    have from_start : Sorted word b.start (b :: bs) := ⟨Nat.le_refl _, sorted'.2⟩
    obtain ⟨sorted, covers⟩ := ih later sorted' done
    refine ⟨sorted, ?_⟩
    intro p
    rw [covers, common_skip (not_covers_behind from_start skip)]
  | case4 a as b bs result skip skip' ih =>
    rw [intersectionLoop, if_neg skip, if_pos skip']
    obtain ⟨-, -, fits, later⟩ := sorted'
    rw [stop_eq fits] at skip'
    have from_start : Sorted word a.start (a :: as) := ⟨Nat.le_refl _, sorted.2⟩
    obtain ⟨sorted, covers⟩ := ih sorted later done
    refine ⟨sorted, ?_⟩
    intro p
    rw [covers, and_comm, and_comm (a := Covers (a :: as) p),
      common_skip (not_covers_behind from_start skip')]
  | case5 a as b bs result skip skip' newStart newEnd result' =>
    rename_i ends ih
    rw [intersectionLoop, if_neg skip, if_neg skip']
    simp only [if_pos ends]
    have whole := sorted'
    obtain ⟨-, -, fits, later⟩ := sorted
    obtain ⟨-, -, fits', later'⟩ := sorted'
    rw [stop_eq fits] at skip
    rw [stop_eq fits'] at skip'
    obtain ⟨done, added⟩ := overlap_spec fits fits' (by omega) (by omega) done
    obtain ⟨sorted, covers⟩ := ih later whole done
    refine ⟨sorted, ?_⟩
    intro p
    rw [stop_eq fits, stop_eq fits'] at ends
    rw [covers, added, common_first (not_covers_behind later' (by omega)), or_assoc]
  | case6 a as b bs result skip skip' newStart newEnd result' =>
    rename_i ends ih
    rw [intersectionLoop, if_neg skip, if_neg skip']
    simp only [if_neg ends]
    have whole := sorted
    obtain ⟨-, -, fits, later⟩ := sorted
    obtain ⟨-, -, fits', later'⟩ := sorted'
    rw [stop_eq fits] at skip
    rw [stop_eq fits'] at skip'
    obtain ⟨done, added⟩ := overlap_spec fits fits' (by omega) (by omega) done
    obtain ⟨sorted, covers⟩ := ih whole later' done
    refine ⟨sorted, ?_⟩
    intro p
    rw [stop_eq fits, stop_eq fits'] at ends
    rw [covers, added, and_comm (a := a.Holds p), and_comm (a := Covers (a :: as) p),
      and_comm (a := Covers (a :: as) p), common_first (not_covers_behind later (by omega)),
      or_assoc]

theorem intersection_spec {low' : Nat} {other : RangeSet} (sorted : Sorted word low ranges)
    (sorted' : Sorted word low' other) :
    Sorted word 0 (intersection word ranges other) ∧
      ∀ p, Covers (intersection word ranges other) p ↔ Covers ranges p ∧ Covers other p := by
  have empty : Sorted word 0 [] := trivial
  simpa [intersection] using intersectionLoop_spec sorted sorted' empty

end Intersecting

end AudioRanges
