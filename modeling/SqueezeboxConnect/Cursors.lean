import Mathlib.Data.List.Basic
import Mathlib.Algebra.Ring.Nat

/-!
# Cursors over a sequence

A cursor has a position in a sequence and moves by seeks, from the start, from
the end or from where it is. A position may lie behind the end; how far is a
property of the kind of cursor, given by the number of positions it accepts. A
read takes what there is up to the size of the buffer. A read that returns less
is a read with a smaller buffer.
-/

namespace Cursors

universe u

inductive SeekFrom where
  | start (n : UInt64)
  | current (d : Int64)
  | «end» (d : Int64)
  deriving DecidableEq

/-- The place a seek asks for, as a sum without overflow. -/
def SeekFrom.target (length pos : Nat) : SeekFrom → Int
  | .start n => n.toNat
  | .current d => pos + d.toInt
  | .end d => length + d.toInt

/-- A place as a position, if it is one of the first `limit`. -/
def accepted (limit : Nat) (place : Int) : Option Nat :=
  if 0 ≤ place ∧ place < limit then some place.toNat else none

theorem accepted_eq_some {limit : Nat} {place : Int} {pos : Nat} :
    accepted limit place = some pos ↔ place = pos ∧ pos < limit := by
  unfold accepted
  split <;> simp only [Option.some.injEq, reduceCtorEq, false_iff] <;> omega

theorem accepted_eq_none {limit : Nat} {place : Int} :
    accepted limit place = none ↔ place < 0 ∨ limit ≤ place := by
  unfold accepted
  split <;> simp only [reduceCtorEq, false_iff, true_iff] <;> omega

structure Cursor (B : Type u) where
  bytes : List B
  pos : Nat
  deriving DecidableEq

namespace Cursor

variable {B : Type u}

/-- `none` is a seek to a place that is not accepted; the cursor stays where it is. -/
def seek (limit : Nat) (c : Cursor B) (dest : SeekFrom) : Option Nat × Cursor B :=
  match accepted limit (dest.target c.bytes.length c.pos) with
  | some pos => (some pos, { c with pos })
  | none => (none, c)

def read (c : Cursor B) (size : Nat) : List B × Cursor B :=
  let taken := (c.bytes.drop c.pos).take size
  (taken, { c with pos := c.pos + taken.length })

@[simp] theorem seek_fst (limit : Nat) (c : Cursor B) (dest : SeekFrom) :
    (c.seek limit dest).1 = accepted limit (dest.target c.bytes.length c.pos) := by
  unfold seek
  split <;> simp_all

@[simp] theorem seek_snd (limit : Nat) (c : Cursor B) (dest : SeekFrom) :
    (c.seek limit dest).2 =
      { c with pos := (accepted limit (dest.target c.bytes.length c.pos)).getD c.pos } := by
  unfold seek
  split <;> simp_all

end Cursor

inductive Call where
  | read (size : Nat)
  | seek (dest : SeekFrom)
  deriving DecidableEq

inductive Answer (B : Type u) where
  | bytes (taken : List B)
  | position (pos : Option Nat)
  deriving DecidableEq

def Cursor.call {B : Type u} (limit : Nat) (c : Cursor B) : Call → Answer B × Cursor B
  | .read size => (.bytes (c.read size).1, (c.read size).2)
  | .seek dest => (.position (c.seek limit dest).1, (c.seek limit dest).2)

end Cursors
