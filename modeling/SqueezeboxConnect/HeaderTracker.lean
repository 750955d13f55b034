import SqueezeboxConnect.Outcomes
import SqueezeboxConnect.OggPage

/-!
# The replay cache

`Headers` follows a logical stream page by page until its three Vorbis header
packets have ended, and keeps the pages they came on. A client that connects
later gets these first. What has been observed without an error is always the
header part of the stream so far.
-/

namespace HeaderTracker

open Outcomes Streams OggPage

def MAX_HEADERS : Nat := 65536

structure Headers where
  serial : Option Nat
  bytes : List UInt8
  packets : Nat
  /-- The first bytes of the packet that is being read. -/
  packetPrefix : List UInt8
  rate : Nat
  deriving DecidableEq

inductive HeaderError where
  | withoutBos
  | tooLong
  | audioOnSetupPage
  | signature
  | shortIdentification
  | sampleRate
  deriving DecidableEq, Repr

namespace Headers

def new : Headers := ⟨none, [], 0, [], 0⟩

/-- The packet type that has to come next. -/
def expected (packets : Nat) : UInt8 := [1, 3, 5].getD packets 0

/-- `vorbis` behind the packet type. -/
def signed (h : Headers) : Bool :=
  7 ≤ h.packetPrefix.length && h.packetPrefix.getD 0 0 == expected h.packets &&
    (h.packetPrefix.drop 1).take 6 == [0x76, 0x6F, 0x72, 0x62, 0x69, 0x73]

def countPacket (h : Headers) : Headers := { h with packets := h.packets + 1, packetPrefix := [] }

/-- A lacing value below 255 ends the packet. -/
def endPacket (h : Headers) : Except HeaderError Headers :=
  if !h.signed then .error .signature
  else if h.packets = 0 then
    let rate := fromLeBytes ((h.packetPrefix.drop 12).take 4)
    if h.packetPrefix.length < 16 then .error .shortIdentification
    else if rate = 0 ∨ 192000 < rate then .error .sampleRate
    else .ok { h with rate := rate }.countPacket
  else .ok h.countPacket

/-- The lacing values of a page, with the bytes of the body that are left. -/
def observeSegments : List UInt8 → List UInt8 → Headers → Except HeaderError Headers
  | [], _, h => .ok h
  | segment :: rest, body, h =>
    if h.packets = 3 then .error .audioOnSetupPage
    else
      let take := min (16 - h.packetPrefix.length) segment.toNat
      let h := { h with packetPrefix := h.packetPrefix ++ body.take take }
      if segment.toNat < 255 then
        h.endPacket.bind fun h => observeSegments rest (body.drop segment.toNat) h
      else observeSegments rest (body.drop segment.toNat) h

/-- A BOS page begins a new stream. -/
def started (h : Headers) (p : Page) : Headers :=
  if p.isBos then { new with serial := some p.serial } else h

/-- A further page of the stream. -/
def cache (h : Headers) (p : Page) : Except HeaderError Headers :=
  if h.packets = 3 then .ok h
  else if MAX_HEADERS < h.bytes.length + p.bytes.length then .error .tooLong
  else (observeSegments p.segments p.body h).bind fun h =>
    .ok { h with bytes := h.bytes ++ p.bytes }

def observe (h : Headers) (p : Page) : Except HeaderError Headers :=
  let h := h.started p
  if h.serial ≠ some p.serial then .error .withoutBos else h.cache p

end Headers

/-- What reading a number of packet ends changes. -/
structure Counted (ends : Nat) (h h' : Headers) : Prop where
  serial_eq : h'.serial = h.serial
  bytes_eq : h'.bytes = h.bytes
  packets_eq : h'.packets = h.packets + ends
  packets_le : h.packets ≤ 3 → h'.packets ≤ 3
  rate_pos : (0 < h.packets → 0 < h.rate) → 0 < h'.packets → 0 < h'.rate
  rate_le : (0 < h.packets → h.rate ≤ 192000) → 0 < h'.packets → h'.rate ≤ 192000

theorem endPacket_counted {h h' : Headers} (few : h.packets ≠ 3) (done : h.endPacket = .ok h') :
    Counted 1 h h' := by
  have bound : h.packets ≤ 3 → h.packets + 1 ≤ 3 := by omega
  simp only [Headers.endPacket] at done
  split at done
  · cases done
  · split at done
    · rename_i nothing
      split at done
      · cases done
      · split at done
        · cases done
        · rename_i valid
          cases done
          refine ⟨rfl, rfl, rfl, bound, fun _ _ => ?_, fun _ _ => ?_⟩
          all_goals
            simp only [Headers.countPacket]
            omega
    · cases done
      exact ⟨rfl, rfl, rfl, bound, fun rate _ => rate (by omega), fun rate _ => rate (by omega)⟩

theorem observeSegments_counted {segments body : List UInt8} {h h' : Headers}
    (done : Headers.observeSegments segments body h = .ok h') :
    Counted (segments.countP fun n => n.toNat < 255) h h' := by
  induction segments generalizing body h with
  | nil =>
    cases done
    exact ⟨rfl, rfl, rfl, id, id, id⟩
  | cons segment rest ih =>
    simp only [Headers.observeSegments] at done
    split at done
    · cases done
    · rename_i few
      split at done
      · rename_i ends
        obtain ⟨h₁, hend, hrest⟩ := ok_of_bind done
        have first := endPacket_counted (by exact few) hend
        have later := ih hrest
        refine ⟨later.serial_eq.trans first.serial_eq, later.bytes_eq.trans first.bytes_eq, ?_,
          later.packets_le ∘ first.packets_le, later.rate_pos ∘ first.rate_pos,
          later.rate_le ∘ first.rate_le⟩
        rw [later.packets_eq, first.packets_eq, List.countP_cons_of_pos (by simpa using ends)]
        simp only
        omega
      · rename_i continues
        have later := ih done
        refine ⟨later.serial_eq, later.bytes_eq, ?_, later.packets_le, later.rate_pos,
          later.rate_le⟩
        rw [later.packets_eq, List.countP_cons_of_neg (by simpa using continues)]

/-- The tracker holds the header part of a stream. -/
structure Holds (stream : List Page) (h : Headers) : Prop where
  bytes_eq : h.bytes = flatten (headerPages stream)
  packets_eq : h.packets = headerPackets stream
  packets_le : h.packets ≤ 3
  rate_pos : 0 < h.packets → 0 < h.rate

/-- It also knows which stream that is. -/
structure Follows (stream : List Page) (h : Headers) : Prop extends Holds stream h where
  serial_eq : h.serial = stream.head?.map Page.serial

theorem holds_new (serial : Option Nat) : Holds [] { Headers.new with serial := serial } :=
  ⟨rfl, rfl, Nat.zero_le 3, fun h => absurd h (Nat.lt_irrefl 0)⟩

theorem cache_holds {stream : List Page} {h h' : Headers} {p : Page} (holds : Holds stream h)
    (done : h.cache p = .ok h') : h'.serial = h.serial ∧ Holds (stream ++ [p]) h' := by
  have bytes := holds.bytes_eq
  have packets := holds.packets_eq
  have bound := holds.packets_le
  rw [Headers.cache] at done
  split at done
  · rename_i complete
    cases done
    have full : ¬ headerPackets stream < 3 := by omega
    refine ⟨rfl, ?_, ?_, bound, holds.rate_pos⟩
    · rw [headerPages_concat, if_neg full, List.append_nil, bytes]
    · rw [headerPackets_concat, if_neg full, packets]
  · rename_i incomplete
    have few : headerPackets stream < 3 := by omega
    split at done
    · cases done
    · obtain ⟨h₁, hsegments, hbytes⟩ := ok_of_bind done
      cases hbytes
      have counted := observeSegments_counted hsegments
      refine ⟨counted.serial_eq, ?_, ?_, counted.packets_le bound, counted.rate_pos holds.rate_pos⟩
      · rw [headerPages_concat, if_pos few, flatten_append, flatten_singleton, ← bytes,
          ← counted.bytes_eq]
      · rw [headerPackets_concat, if_pos few, ← packets]
        exact counted.packets_eq

/-- A BOS page begins a new stream, whatever was followed before. -/
theorem observe_bos {h h' : Headers} {p : Page} (bos : p.isBos = true)
    (done : h.observe p = .ok h') : Follows [p] h' := by
  have fresh : h.started p = { Headers.new with serial := some p.serial } := if_pos bos
  simp only [Headers.observe, fresh, ne_eq, not_true_eq_false, if_false] at done
  obtain ⟨serial_eq, holds⟩ := cache_holds (holds_new (some p.serial)) done
  exact ⟨holds, serial_eq⟩

theorem observe_next {stream : List Page} {h h' : Headers} {p : Page} (follows : Follows stream h)
    (inside : p.isBos = false) (done : h.observe p = .ok h') :
    stream ≠ [] ∧ Follows (stream ++ [p]) h' := by
  have same : h.started p = h := if_neg (by simp [inside])
  simp only [Headers.observe, same] at done
  split at done
  · cases done
  · rename_i matching
    have serial : h.serial = some p.serial := by simpa using matching
    have begun : stream ≠ [] := by
      rintro rfl
      rw [follows.serial_eq] at serial
      cases serial
    obtain ⟨serial_eq, holds⟩ := cache_holds follows.toHolds done
    refine ⟨begun, holds, ?_⟩
    rw [serial_eq, follows.serial_eq, List.head?_append_of_ne_nil stream begun]

end HeaderTracker
