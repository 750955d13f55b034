import SqueezeboxConnect.AudioFetch
import SqueezeboxConnect.Ledgers
import SqueezeboxConnect.Runs

/-!
# The ledger of a download

The owners of byte positions are the receivers, with the range they have still
to receive, and the data messages in the queue. Every step of the fetch is a
step of a balanced ledger: a request takes positions that are neither requested
nor downloaded, a body moves positions from a receiver to a message, a receiver
that ends gives its positions back, and a message that is handled settles them.

All of this needs that the end of a range is a machine word. Near the largest
file size it is not, and then one range can be requested twice.
-/

namespace DownloadLedger

open Ledgers AudioRanges AudioFetch Runs

/-- How many of the ranges hold a position. -/
def holders (ranges : List Range) (p : Nat) : Nat := ranges.countP fun r => decide (r.Holds p)

def partRange : ReceivedData → Option Range
  | .data part => some part.range
  | _ => none

/-- The ranges that belong to somebody. -/
def pieces (word : Nat) (receivers : List Receiver) (queue : List ReceivedData) : List Range :=
  receivers.map (Receiver.outstanding word) ++ queue.filterMap partRange

variable {r : Receiver} {i : Nat}

section Counting

@[simp] theorem holders_nil (p : Nat) : holders [] p = 0 := rfl

theorem holders_cons (r : Range) (rest : List Range) (p : Nat) :
    holders (r :: rest) p = holders rest p + if r.Holds p then 1 else 0 := by
  simp [holders, List.countP_cons]

theorem holders_append (front back : List Range) (p : Nat) :
    holders (front ++ back) p = holders front p + holders back p :=
  List.countP_append

theorem holders_cut (start : Nat) {n length : Nat} (le : n ≤ length) (p : Nat) :
    holders [⟨start + n, length - n⟩, ⟨start, n⟩] p = holders [⟨start, length⟩] p := by
  have whole : (⟨start, length⟩ : Range).Holds p ↔
      (⟨start + n, length - n⟩ : Range).Holds p ∨ (⟨start, n⟩ : Range).Holds p := by
    simp only [Range.Holds]
    omega
  have apart : (⟨start + n, length - n⟩ : Range).Holds p → ¬ (⟨start, n⟩ : Range).Holds p := by
    simp only [Range.Holds]
    omega
  simp only [holders_cons, holders_nil, whole]
  by_cases back : (⟨start + n, length - n⟩ : Range).Holds p
  · simp [back, apart back]
  · simp [back]

theorem split_at {α : Type} {l : List α} {a : α} (found : l[i]? = some a) :
    ∃ front back, l = front ++ a :: back ∧ (∀ b, l.set i b = front ++ b :: back) ∧
      l.eraseIdx i = front ++ back := by
  induction l generalizing i with
  | nil => simp at found
  | cons x rest ih =>
    cases i with
    | zero =>
      cases found
      exact ⟨[], rest, rfl, fun b => rfl, rfl⟩
    | succ i =>
      obtain ⟨front, back, split, replaced, erased⟩ := ih found
      refine ⟨x :: front, back, by rw [split]; rfl, ?_, ?_⟩
      · intro b
        rw [List.set_cons_succ, replaced]
        rfl
      · rw [List.eraseIdx_cons_succ, erased]
        rfl

theorem holders_set (word : Nat) {receivers : List Receiver} (found : receivers[i]? = some r)
    (r' : Receiver) (queue messages : List ReceivedData) (p : Nat) :
    holders (pieces word (receivers.set i r') (queue ++ messages)) p +
        holders [r.outstanding word] p =
      holders (pieces word receivers queue) p +
        holders (r'.outstanding word :: messages.filterMap partRange) p := by
  obtain ⟨front, back, split, replaced, -⟩ := split_at found
  rw [replaced, split]
  simp only [pieces, List.map_append, List.map_cons, List.filterMap_append, holders_append,
    holders_cons, holders_nil]
  omega

theorem holders_erase (word : Nat) {receivers : List Receiver} (found : receivers[i]? = some r)
    (queue : List ReceivedData) (p : Nat) :
    holders (pieces word (receivers.eraseIdx i) queue) p + holders [r.outstanding word] p =
      holders (pieces word receivers queue) p := by
  obtain ⟨front, back, split, -, erased⟩ := split_at found
  rw [erased, split]
  simp only [pieces, List.map_append, List.map_cons, holders_append, holders_cons, holders_nil]
  omega

end Counting

/-- The numbers of a receiver are machine words. -/
structure Within (word : Nat) (r : Receiver) : Prop where
  received : r.actualLength ≤ r.length
  length_lt : r.length < word
  fits : r.offset + (r.length - r.actualLength) < word

theorem missingRange_eq {word : Nat} (within : Within word r) :
    r.missingRange word = ⟨r.offset, r.length - r.actualLength⟩ := by
  rw [Receiver.missingRange, Receiver.bytesRemaining,
    wrappingSub_eq within.received within.length_lt]

/-- The part of the state that the ledger is about. -/
structure Books (word : Nat) (requested downloaded : RangeSet) (receivers : List Receiver)
    (queue : List ReceivedData) : Prop where
  requested_sorted : Sorted word 0 requested
  downloaded_sorted : Sorted word 0 downloaded
  balanced : Balanced (Covers requested) (Covers downloaded) (holders (pieces word receivers queue))
  receivers_within : ∀ r ∈ receivers, Within word r
  parts_fit : ∀ part, ReceivedData.data part ∈ queue → part.range.Fits word

section Steps

variable {word : Nat} {requested downloaded : RangeSet} {receivers : List Receiver}
  {queue : List ReceivedData}

section

variable (books : Books word requested downloaded receivers queue)
include books

theorem books_set {r' : Receiver} (found : receivers[i]? = some r) (within : Within word r')
    {messages : List ReceivedData}
    (fit : ∀ part, ReceivedData.data part ∈ messages → part.range.Fits word)
    (moved : ∀ p, holders (r'.outstanding word :: messages.filterMap partRange) p =
      holders [r.outstanding word] p) :
    Books word requested downloaded (receivers.set i r') (queue ++ messages) := by
  have same : holders (pieces word (receivers.set i r') (queue ++ messages)) =
      holders (pieces word receivers queue) := by
    funext p
    have counted := holders_set word found r' queue messages p
    have := moved p
    omega
  refine ⟨books.requested_sorted, books.downloaded_sorted, ?_, ?_, ?_⟩
  · rw [same]
    exact books.balanced
  · intro s inside
    rcases List.mem_or_eq_of_mem_set inside with old | rfl
    · exact books.receivers_within s old
    · exact within
  · intro part inside
    rcases List.mem_append.mp inside with old | new
    · exact books.parts_fit part old
    · exact fit part new

theorem books_giveBack (found : receivers[i]? = some r) (here : r.phase ≠ .returned) :
    Books word (subtractRange word (r.missingRange word) requested) downloaded
      (receivers.set i { r with phase := .returned }) queue := by
  have within := books.receivers_within r (List.mem_of_getElem? found)
  have fits : (r.missingRange word).Fits word := by
    rw [missingRange_eq within]
    exact within.fits
  obtain ⟨sorted, covers⟩ := subtractRange_spec books.requested_sorted fits
  have owned : r.outstanding word = r.missingRange word := if_neg here
  have nothing (p : Nat) : ¬ (Receiver.outstanding word { r with phase := .returned }).Holds p := by
    simp only [Receiver.outstanding, if_true, Range.Holds]
    omega
  have counted (p : Nat) := holders_set word found { r with phase := .returned } queue [] p
  simp only [holders_cons, holders_nil, List.filterMap_nil, List.append_nil, nothing, owned,
    if_false] at counted
  refine ⟨sorted, books.downloaded_sorted, ?_, ?_, books.parts_fit⟩
  · refine balanced_release books.balanced covers ?_ ?_
    · intro p inside
      have := counted p
      rw [if_pos inside] at this
      omega
    · intro p outside
      have := counted p
      rw [if_neg outside] at this
      omega
  · intro s inside
    rcases List.mem_or_eq_of_mem_set inside with old | rfl
    · exact books.receivers_within s old
    · exact ⟨within.received, within.length_lt, within.fits⟩

theorem books_leave (found : receivers[i]? = some r) (returned : r.phase = .returned) :
    Books word requested downloaded (receivers.eraseIdx i) queue := by
  have nothing (p : Nat) : ¬ (r.outstanding word).Holds p := by
    simp only [Receiver.outstanding, if_pos returned, Range.Holds]
    omega
  have same : holders (pieces word (receivers.eraseIdx i) queue) =
      holders (pieces word receivers queue) := by
    funext p
    have counted := holders_erase word found queue p
    simp only [holders_cons, holders_nil, nothing, if_false] at counted
    omega
  refine ⟨books.requested_sorted, books.downloaded_sorted, ?_, ?_, books.parts_fit⟩
  · rw [same]
    exact books.balanced
  · intro s inside
    exact books.receivers_within s (List.mem_of_mem_eraseIdx inside)

end

theorem books_drop {message : ReceivedData} (empty : partRange message = none)
    (books : Books word requested downloaded receivers (message :: queue)) :
    Books word requested downloaded receivers queue := by
  have same : pieces word receivers (message :: queue) = pieces word receivers queue := by
    rw [pieces, List.filterMap_cons_none empty, pieces]
  refine ⟨books.requested_sorted, books.downloaded_sorted, ?_, books.receivers_within, ?_⟩
  · rw [← same]
    exact books.balanced
  · exact fun part inside => books.parts_fit part (by simp [inside])

theorem books_settle {part : PartialFileData}
    (books : Books word requested downloaded receivers (.data part :: queue)) :
    Books word requested (addRange word part.range downloaded) receivers queue := by
  obtain ⟨sorted, covers⟩ := addRange_spec books.downloaded_sorted (Nat.zero_le _)
    (books.parts_fit part (by simp))
  have counted (p : Nat) : holders (pieces word receivers (.data part :: queue)) p =
      holders (pieces word receivers queue) p + if part.range.Holds p then 1 else 0 := by
    have first : (ReceivedData.data part :: queue).filterMap partRange =
        part.range :: queue.filterMap partRange := rfl
    rw [pieces, pieces, first, holders_append, holders_append, holders_cons]
    omega
  refine ⟨books.requested_sorted, sorted, ?_, books.receivers_within, ?_⟩
  · refine balanced_settle books.balanced covers ?_ ?_
    · intro p inside
      rw [counted, if_pos inside]
    · intro p outside
      rw [counted, if_neg outside]
      rfl
  · exact fun other inside => books.parts_fit other (by simp [inside])

theorem books_spawn (books : Books word requested downloaded receivers queue) {range : Range}
    (fits : range.Fits word) (fresh : ∀ p, range.Holds p → ¬ Covers requested p)
    (initialResponse : Bool) :
    Books word (addRange word range requested) downloaded
      (receivers ++ [.new initialResponse range]) queue := by
  obtain ⟨sorted, covers⟩ := addRange_spec books.requested_sorted (Nat.zero_le _) fits
  have word_gt : range.start + range.length < word := fits
  have within : Within word (.new initialResponse range) :=
    ⟨Nat.zero_le _, by simp only [Receiver.new]; omega, by simpa [Receiver.new] using word_gt⟩
  have owned : (Receiver.new initialResponse range).outstanding word = range := by
    rw [Receiver.outstanding, if_neg (by simp [Receiver.new]), missingRange_eq within]
    rfl
  have counted (p : Nat) :
      holders (pieces word (receivers ++ [.new initialResponse range]) queue) p =
      holders (pieces word receivers queue) p + if range.Holds p then 1 else 0 := by
    simp only [pieces, List.map_append, List.map_cons, List.map_nil, owned, holders_append,
      holders_cons, holders_nil]
    omega
  refine ⟨sorted, books.downloaded_sorted, ?_, ?_, books.parts_fit⟩
  · refine balanced_request books.balanced fresh covers ?_ ?_
    · intro p inside
      rw [counted, if_pos inside]
    · intro p outside
      rw [counted, if_neg outside]
      rfl
  · intro s inside
    rcases List.mem_append.mp inside with old | new
    · exact books.receivers_within s old
    · rw [List.mem_singleton.mp new]
      exact within

theorem books_request {low : Nat} {ranges : RangeSet} (sorted : Sorted word low ranges)
    (books : Books word requested downloaded receivers queue)
    (fresh : ∀ p, Covers ranges p → ¬ Covers requested p) :
    Books word (ranges.foldl (fun requested range => addRange word range requested) requested)
      downloaded (receivers ++ ranges.map (.new false)) queue := by
  induction ranges generalizing low requested receivers with
  | nil => simpa using books
  | cons range rest ih =>
    obtain ⟨-, -, fits, later⟩ := sorted
    have first := books_spawn books fits (fun p inside => fresh p (by simp [inside])) false
    have covers := (addRange_spec books.requested_sorted (Nat.zero_le _) fits).2
    have all := ih later first (by
      intro p inside taken
      rcases (covers p).mp taken with held | old
      · have behind := covers_above later inside
        have last := held.2
        omega
      · exact fresh p (by simp [inside]) old)
    rwa [List.append_assoc] at all

end Steps

end DownloadLedger
