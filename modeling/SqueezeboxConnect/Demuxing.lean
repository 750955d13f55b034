import Mathlib.Data.List.Basic
import SqueezeboxConnect.OggPage

/-!
# Reading packets from the pages of a logical stream

The lacing values of a page cut its body into segments. A packet goes on over
segments of 255 bytes, and over the end of a page, and ends with a shorter one;
its granule position is that of the page on which it ends. The pages must be in
place: of one serial number, counted from zero, with the BOS flag on the first one
only and the flag of a continued packet exactly where a packet goes on.
-/

namespace Demuxing

open OggPage

def sequence (p : Page) : Nat := fromLeBytes ((p.bytes.drop 18).take 4)

/-- `p[5] & 1 != 0`. -/
def isContinued (p : Page) : Bool := (p.bytes.getD 5 0).toNat.testBit 0

/-- A body cut by its lacing values. -/
def cut : List UInt8 → List UInt8 → List (List UInt8)
  | [], _ => []
  | n :: rest, body => body.take n.toNat :: cut rest (body.drop n.toNat)

def segments (p : Page) : List (List UInt8) := cut p.segments p.body

/-- The packets that end in the segments, and what is left of the last one. -/
def scan : List UInt8 → List (List UInt8) → List (List UInt8) × List UInt8
  | pending, [] => ([], pending)
  | pending, segment :: rest =>
    if segment.length < 255 then
      let (packets, left) := scan [] rest
      ((pending ++ segment) :: packets, left)
    else scan (pending ++ segment) rest

/-- The page with the given number can follow, with a packet that is not complete. -/
def inPlace (serial : UInt32) (number : Nat) (pending : List UInt8) (p : Page) : Bool :=
  p.serial == serial.toNat && p.isBos == (number == 0) && sequence p == number % 2 ^ 32 &&
    isContinued p == !pending.isEmpty

/-- The packets of a stream with their granule positions, and what is left of the last one. -/
def demux (serial : UInt32) :
    Nat → List UInt8 → List Page → Option (List (List UInt8 × Nat) × List UInt8)
  | _, pending, [] => some ([], pending)
  | number, pending, p :: pages =>
    if inPlace serial number pending p then
      let ended := scan pending (segments p)
      (demux serial (number + 1) ended.2 pages).map fun later =>
        (ended.1.map (·, p.granule) ++ later.1, later.2)
    else none

theorem scan_append (pending : List UInt8) (front back : List (List UInt8)) :
    scan pending (front ++ back) =
      ((scan pending front).1 ++ (scan (scan pending front).2 back).1,
        (scan (scan pending front).2 back).2) := by
  induction front generalizing pending with
  | nil => rfl
  | cons segment rest ih =>
    rw [List.cons_append, scan, scan]
    split
    · rw [ih []]
      rfl
    · exact ih (pending ++ segment)

theorem demux_concat {serial : UInt32} {number : Nat} {pending left : List UInt8}
    {pages : List Page} {packets : List (List UInt8 × Nat)}
    (read : demux serial number pending pages = some (packets, left)) {p : Page}
    (place : inPlace serial (number + pages.length) left p = true) :
    demux serial number pending (pages ++ [p]) =
      some (packets ++ (scan left (segments p)).1.map (·, p.granule),
        (scan left (segments p)).2) := by
  induction pages generalizing number pending packets with
  | nil =>
    cases read
    rw [List.nil_append, demux, if_pos (by simpa using place)]
    simp [demux]
  | cons q rest ih =>
    rw [demux] at read
    split at read
    · next here =>
      obtain ⟨later, tail, same⟩ := Option.map_eq_some_iff.mp read
      cases same
      have place' : inPlace serial (number + 1 + rest.length) later.2 p = true := by
        rw [List.length_cons] at place
        rwa [Nat.add_assoc, Nat.add_comm 1]
      rw [List.cons_append, demux, if_pos here]
      dsimp only
      rw [ih tail place', List.append_assoc]
      rfl
    · cases read

end Demuxing
