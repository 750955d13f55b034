import SqueezeboxConnect.StreamingAudio
import Mathlib.Algebra.Ring.Nat

/-!
# Reads that meet a failure

A read that comes across a failure has already copied what was before it into
the caller's buffer and counted it, and returns the failure alone. Those bytes
are lost. Whether a failure is met that way is decided by the sizes of the reads
and the number of bytes before it; how these are cut into chunks does not matter.
-/

namespace ReadFailures

open ByteReaders StreamingAudio SequentialAudio

/-- The reads up to the first failure return everything that was before it, and the
position counts what they return. -/
def LosesNothing (a : SequentialAudio) (sizes : List Nat) : Prop :=
  ∀ bytes failure a', readThrough a sizes = (bytes, failure, a') →
    (failure.isSome = true → bytes = a.left) ∧ a'.seek (.current 0) =
    .ok (a.position + bytes.length)

theorem losesNothing_ok {a a' : SequentialAudio} {size : Nat} {bytes : List UInt8}
    (sizes : List Nat) (h : read a size = some (.ok bytes, a')) (taken : a.left = bytes ++ a'.left)
    (position : a'.position = a.position + bytes.length) :
    LosesNothing a (size :: sizes) ↔ LosesNothing a' sizes := by
  have both := readThrough_ok sizes (show Reader.read a size = _ from h)
  constructor
  · intro keeps more failure last rest
    rw [rest] at both
    obtain ⟨complete, counted⟩ := keeps _ failure last both
    refine ⟨fun failed => ?_, ?_⟩
    · exact List.append_cancel_left ((complete failed).trans taken)
    · rw [counted, position, List.length_append, Nat.add_assoc]
  · intro keeps all failure last whole
    rw [both] at whole
    obtain ⟨rfl, rest⟩ := Prod.mk.inj whole
    obtain ⟨complete, counted⟩ := keeps (readThrough a' sizes).1 failure last (Prod.ext rfl rest)
    refine ⟨fun failed => ?_, ?_⟩
    · rw [complete failed, taken]
    · rw [counted, position, List.length_append, Nat.add_assoc]

theorem losesNothing_error {a a' : SequentialAudio} {size : Nat} {e : String}
    (sizes : List Nat) (h : read a size = some (.error e, a'))
    (position : a'.position = a.position + a.left.length) :
    LosesNothing a (size :: sizes) ↔ a.left = [] := by
  have failed := readThrough_error sizes (show Reader.read a size = _ from h)
  constructor
  · intro keeps
    exact ((keeps [] (some e) a' failed).1 rfl).symm
  · intro nothing bytes failure last whole
    rw [failed] at whole
    cases whole
    refine ⟨fun _ => nothing.symm, ?_⟩
    rw [nothing] at position
    simp [seek, position]

/-- Reads of these sizes go past `length` elements, but none of them stops there. -/
def Straddles (length : Nat) (sizes : List Nat) : Prop :=
  length < sizes.sum ∧ ∀ front, front <+: sizes → front.sum ≠ length

theorem straddles_cons_of_le {length size : Nat} (sizes : List Nat) (fits : size ≤ length) :
    Straddles length (size :: sizes) ↔ Straddles (length - size) sizes := by
  constructor
  · rintro ⟨past, never⟩
    refine ⟨by rw [List.sum_cons] at past; omega, fun front initial same => ?_⟩
    refine never (size :: front) (List.cons_prefix_cons.mpr ⟨rfl, initial⟩) ?_
    rw [List.sum_cons]
    omega
  · rintro ⟨past, never⟩
    refine ⟨by rw [List.sum_cons]; omega, fun front initial same => ?_⟩
    cases front with
    | nil => exact never [] List.nil_prefix (by rw [List.sum_nil] at same ⊢; omega)
    | cons first front =>
      obtain ⟨rfl, tail⟩ := List.cons_prefix_cons.mp initial
      exact never front tail (by rw [List.sum_cons] at same; omega)

theorem straddles_cons_of_lt {length size : Nat} (sizes : List Nat) (short : length < size) :
    Straddles length (size :: sizes) ↔ length ≠ 0 := by
  constructor
  · rintro ⟨-, never⟩ zero
    exact never [] List.nil_prefix (by rw [zero, List.sum_nil])
  · intro filled
    refine ⟨by rw [List.sum_cons]; omega, fun front initial same => ?_⟩
    cases front with
    | nil => exact filled same.symm
    | cons first front =>
      obtain ⟨rfl, -⟩ := List.cons_prefix_cons.mp initial
      rw [List.sum_cons] at same
      omega

theorem losesNothing_iff {a : SequentialAudio} (sizes : List Nat)
    (ahead : fails a.rx.messages = true) :
    LosesNothing a sizes ↔ ¬ Straddles a.left.length sizes := by
  induction sizes generalizing a with
  | nil =>
    refine ⟨fun _ past => absurd past.1 (Nat.not_lt_zero _), fun _ bytes failure last whole => ?_⟩
    cases whole
    exact ⟨fun failed => absurd failed (by decide), by simp [seek]⟩
  | cons size sizes ih =>
    rcases read_ahead size ahead with ⟨bytes, a', h, full, taken, position, ahead'⟩ |
      ⟨e, a', h, short, position, -⟩
    · have lengths := congrArg List.length taken
      rw [List.length_append] at lengths
      rw [losesNothing_ok sizes h taken (by rw [full]; exact position), ih ahead',
        straddles_cons_of_le sizes (by omega)]
      rw [show a.left.length - size = a'.left.length by omega]
    · rw [losesNothing_error sizes h position, straddles_cons_of_lt sizes short]
      simp

/-- The reader with the chunks the task has sent, and the failure it sent then. -/
def received (chunks : List (List UInt8)) (e : String) (total : Nat) : SequentialAudio :=
  ⟨⟨chunks.map .ok ++ [.error e], true⟩, none, 0, total⟩

theorem left_received (chunks : List (List UInt8)) (e : String) (total : Nat) :
    (received chunks e total).left = chunks.flatten :=
  untilError_chunks chunks e

/-- Reads of these sizes return all bytes of the chunks before they meet the failure, and
the reported position is the number of bytes they returned. -/
def KeepsChunks (chunks : List (List UInt8)) (e : String) (total : Nat) (sizes : List Nat) : Prop :=
  ∀ bytes failure a', readThrough (received chunks e total) sizes = (bytes, failure, a') →
    (failure.isSome = true → bytes = chunks.flatten) ∧ a'.seek (.current 0) = .ok bytes.length

/-- Nothing is lost on a failure exactly if the reads do not go past the bytes before it
without one of them ending there. -/
theorem keepsChunks_iff (chunks : List (List UInt8)) (e : String) (total : Nat)
    (sizes : List Nat) :
    KeepsChunks chunks e total sizes ↔ ¬ Straddles chunks.flatten.length sizes := by
  have keeps := losesNothing_iff (a := received chunks e total) sizes
    (by simp [received, fails, isError])
  rw [left_received] at keeps
  rw [← keeps, LosesNothing, left_received]
  simp only [KeepsChunks, received, Nat.zero_add]

/-- A chunk of three bytes and a failure, read into a buffer of four: the read fails with
the position at three. -/
theorem partialRead_losesChunk : ¬ KeepsChunks [[1, 2, 3]] "reset" 9 [4] := by
  intro keeps
  have lost := (keeps [] (some "reset") _ rfl).1 rfl
  cases lost

end ReadFailures
