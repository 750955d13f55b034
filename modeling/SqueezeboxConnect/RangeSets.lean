import Mathlib.Data.Set.Card
import Mathlib.Order.Interval.Finset.Nat
import SqueezeboxConnect.Runs
import SqueezeboxConnect.AudioRanges

/-!
# Range sets as sets of positions

A program over range sets holds any number of them, all empty at first, and
changes them by the operations of the type. Next to it runs the same program
over sets of positions. As long as no range that is put in ends beyond the
largest word, each range set denotes its set, and what is read from it is what
the set says.
-/

namespace RangeSets

open Runs AudioRanges

/-- An operation on the sets of a program, which go by numbers. -/
inductive Op where
  | new (target : Nat)
  | addRange (target : Nat) (range : Range)
  | addRangeSet (target other : Nat)
  | union (target left right : Nat)
  | subtractRange (target : Nat) (range : Range)
  | subtractRangeSet (target other : Nat)
  | minus (target left right : Nat)
  | intersection (target left right : Nat)
  deriving DecidableEq

/-- The end of a range in the operation is a machine word. -/
def Op.Fits (word : Nat) : Op → Prop
  | .addRange _ range => range.Fits word
  | .subtractRange _ range => range.Fits word
  | _ => True

/-- What the operation assigns, over the ranges. -/
def step (word : Nat) (sets : Nat → RangeSet) : Op → Nat → RangeSet
  | .new target => Function.update sets target []
  | .addRange target range =>
    Function.update sets target (addRange word range (sets target))
  | .addRangeSet target other =>
    Function.update sets target (addRangeSet word (sets target) (sets other))
  | .union target left right =>
    Function.update sets target (union word (sets left) (sets right))
  | .subtractRange target range =>
    Function.update sets target (subtractRange word range (sets target))
  | .subtractRangeSet target other =>
    Function.update sets target (subtractRangeSet word (sets target) (sets other))
  | .minus target left right =>
    Function.update sets target (minus word (sets left) (sets right))
  | .intersection target left right =>
    Function.update sets target (intersection word (sets left) (sets right))

def positions (range : Range) : Set Nat := {p | range.Holds p}

/-- What it assigns over the sets of positions. -/
def stepPositions (sets : Nat → Set Nat) : Op → Nat → Set Nat
  | .new target => Function.update sets target ∅
  | .addRange target range => Function.update sets target (sets target ∪ positions range)
  | .addRangeSet target other => Function.update sets target (sets target ∪ sets other)
  | .union target left right => Function.update sets target (sets left ∪ sets right)
  | .subtractRange target range => Function.update sets target (sets target \ positions range)
  | .subtractRangeSet target other => Function.update sets target (sets target \ sets other)
  | .minus target left right => Function.update sets target (sets left \ sets right)
  | .intersection target left right => Function.update sets target (sets left ∩ sets right)

/-- A well-formed range set with exactly the positions of a set. -/
structure Denotes (word : Nat) (ranges : RangeSet) (set : Set Nat) : Prop where
  sorted : Sorted word 0 ranges
  covers : ∀ p, Covers ranges p ↔ p ∈ set

/-- Each range set of a program denotes its set. -/
def Agree (word : Nat) (sets : Nat → RangeSet) (sets' : Nat → Set Nat) : Prop :=
  ∀ k, Denotes word (sets k) (sets' k)

section Denoting

variable {word : Nat} {ranges other : RangeSet} {set set' : Set Nat}

theorem denotes_empty : Denotes word [] ∅ := ⟨trivial, fun p => by simp⟩

section

variable (h : Denotes word ranges set)
include h

theorem denotes_addRange {range : Range} (fits : range.Fits word) :
    Denotes word (addRange word range ranges) (set ∪ positions range) := by
  obtain ⟨sorted, covers⟩ := addRange_spec h.sorted (Nat.zero_le range.start) fits
  refine ⟨sorted, ?_⟩
  intro p
  rw [covers, h.covers, or_comm]
  rfl

theorem denotes_subtractRange {range : Range} (fits : range.Fits word) :
    Denotes word (subtractRange word range ranges) (set \ positions range) := by
  obtain ⟨sorted, covers⟩ := subtractRange_spec h.sorted fits
  refine ⟨sorted, ?_⟩
  intro p
  rw [covers, h.covers]
  rfl

theorem denotes_addRangeSet (h' : Denotes word other set') :
    Denotes word (addRangeSet word ranges other) (set ∪ set') := by
  obtain ⟨sorted, covers⟩ := addRangeSet_spec h.sorted h'.sorted
  refine ⟨sorted, ?_⟩
  intro p
  rw [covers, h.covers, h'.covers]
  rfl

theorem denotes_subtractRangeSet (h' : Denotes word other set') :
    Denotes word (subtractRangeSet word ranges other) (set \ set') := by
  obtain ⟨sorted, covers⟩ := subtractRangeSet_spec h.sorted h'.sorted
  refine ⟨sorted, ?_⟩
  intro p
  rw [covers, h.covers, h'.covers]
  rfl

theorem denotes_intersection (h' : Denotes word other set') :
    Denotes word (intersection word ranges other) (set ∩ set') := by
  obtain ⟨sorted, covers⟩ := intersection_spec h.sorted h'.sorted
  refine ⟨sorted, ?_⟩
  intro p
  rw [covers, h.covers, h'.covers]
  rfl

end

theorem agree_update {sets : Nat → RangeSet} {sets' : Nat → Set Nat}
    (h : Agree word sets sets') (target : Nat) (assigned : Denotes word ranges set) :
    Agree word (Function.update sets target ranges) (Function.update sets' target set) := by
  intro k
  by_cases same : k = target
  · subst same
    simpa using assigned
  · simpa [same] using h k

theorem step_agrees {sets : Nat → RangeSet} {sets' : Nat → Set Nat} (op : Op)
    (h : Agree word sets sets') (fits : op.Fits word) :
    Agree word (step word sets op) (stepPositions sets' op) := by
  cases op with
  | new target => exact agree_update h target denotes_empty
  | addRange target range => exact agree_update h target (denotes_addRange (h target) fits)
  | addRangeSet target other =>
    exact agree_update h target (denotes_addRangeSet (h target) (h other))
  | union target left right =>
    exact agree_update h target (denotes_addRangeSet (h left) (h right))
  | subtractRange target range =>
    exact agree_update h target (denotes_subtractRange (h target) fits)
  | subtractRangeSet target other =>
    exact agree_update h target (denotes_subtractRangeSet (h target) (h other))
  | minus target left right =>
    exact agree_update h target (denotes_subtractRangeSet (h left) (h right))
  | intersection target left right =>
    exact agree_update h target (denotes_intersection (h left) (h right))

end Denoting

section Reading

variable {word : Nat} {ranges other : RangeSet} {set set' : Set Nat}

/-- The numbers of positions that follow one another in a set, from a position on. -/
def runsFrom (set : Set Nat) (value : Nat) : Set Nat :=
  {n | ∀ p, value ≤ p → p < value + n → p ∈ set}

theorem sorted_pairwise {low : Nat} (sorted : Sorted word low ranges) :
    ranges.Pairwise fun r s => r.start + r.length < s.start := by
  induction ranges generalizing low with
  | nil => exact List.Pairwise.nil
  | cons r rest ih =>
    obtain ⟨-, -, -, later⟩ := sorted
    exact List.Pairwise.cons (fun s inside => (sorted_start later s inside).1) (ih later)

theorem containedLength_greatest (h : Denotes word ranges set) (value : Nat) :
    IsGreatest (runsFrom set value) (containedLengthFromValue word ranges value) := by
  have iff := le_containedLength_iff h.sorted value
  simp only [h.covers] at iff
  exact ⟨(iff _).mp (Nat.le_refl _), fun n run => (iff n).mpr run⟩

theorem containsRangeSet_subset (h : Denotes word ranges set) (h' : Denotes word other set') :
    containsRangeSet word ranges other = true ↔ set' ⊆ set := by
  simp only [containsRangeSet_iff h.sorted, h.covers, h'.covers]
  rfl

theorem covers_finset {low : Nat} (sorted : Sorted word low ranges) :
    ∃ all : Finset Nat, (∀ p, p ∈ all ↔ Covers ranges p) ∧
      all.card = (ranges.map Range.length).sum := by
  induction ranges generalizing low with
  | nil => exact ⟨∅, by simp, rfl⟩
  | cons r rest ih =>
    obtain ⟨-, -, -, later⟩ := sorted
    obtain ⟨others, inside, size⟩ := ih later
    have apart : Disjoint (Finset.Ico r.start (r.start + r.length)) others := by
      rw [Finset.disjoint_left]
      intro p first other
      have behind := covers_above later ((inside p).mp other)
      have below := (Finset.mem_Ico.mp first).2
      omega
    refine ⟨Finset.Ico r.start (r.start + r.length) ∪ others, ?_, ?_⟩
    · intro p
      rw [Finset.mem_union, Finset.mem_Ico, inside, covers_cons, Range.Holds]
    · rw [Finset.card_union_of_disjoint apart, Nat.card_Ico, size, List.map_cons, List.sum_cons,
        Nat.add_sub_cancel_left]

theorem len_ncard (h : Denotes word ranges set) : len word ranges = set.ncard := by
  obtain ⟨all, inside, size⟩ := covers_finset h.sorted
  have same : set = all := by
    ext p
    rw [Finset.mem_coe, inside, h.covers]
  rw [len_eq h.sorted, same, Set.ncard_coe_finset, size]

end Reading

/-- Every range set is the set it denotes, whatever has been done to it. -/
theorem rangeSets_agree (word : Nat) (ops : List Op) (fits : ∀ op ∈ ops, op.Fits word)
    (k : Nat) :
    let sets := run (step word) (fun _ => []) ops
    let positions := run stepPositions (fun _ => ∅) ops
    (∀ r ∈ sets k, 0 < r.length) ∧
      ((sets k).Pairwise fun r s => r.start + r.length < s.start) ∧
      {p | Covers (sets k) p} = positions k ∧
      (∀ value, contains word (sets k) value = true ↔ value ∈ positions k) ∧
      (∀ other, containsRangeSet word (sets k) (sets other) = true ↔
        positions other ⊆ positions k) ∧
      (∀ value, IsGreatest (runsFrom (positions k) value)
        (containedLengthFromValue word (sets k) value)) ∧
      len word (sets k) = (positions k).ncard := by
  have h : Agree word (run (step word) (fun _ => []) ops) (run stepPositions (fun _ => ∅) ops) :=
    run_simulates (fun _ _ op => step_agrees op) (fun _ => denotes_empty) fits
  refine ⟨fun r inside => (sorted_start (h k).sorted r inside).2.1, sorted_pairwise (h k).sorted,
    Set.ext (h k).covers, ?_, fun other => containsRangeSet_subset (h k) (h other),
    containedLength_greatest (h k), len_ncard (h k)⟩
  intro value
  rw [contains_iff (h k).sorted, (h k).covers]

/-- Two ranges are merged by a third one, and a hole is cut into the result. -/
theorem hole_agrees :
    let ops : List Op := [.addRange 0 ⟨0, 4⟩, .addRange 0 ⟨8, 4⟩, .addRange 0 ⟨4, 4⟩,
      .subtractRange 0 ⟨5, 2⟩]
    run (step (2 ^ 32)) (fun _ => []) ops 0 = [⟨0, 5⟩, ⟨7, 5⟩] ∧
      len (2 ^ 32) (run (step (2 ^ 32)) (fun _ => []) ops 0) =
        (run stepPositions (fun _ => ∅) ops 0).ncard := by
  refine ⟨by decide, (rangeSets_agree (2 ^ 32) _ ?_ 0).2.2.2.2.2.2⟩
  simp [Op.Fits, Range.Fits]

end RangeSets
