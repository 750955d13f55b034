import Mathlib.Logic.Function.Basic
import SqueezeboxConnect.ByteFields
import SqueezeboxConnect.Words

/-!
# Mercury requests and their responses

A response comes in one or more packets that carry the sequence number of its
request, and each packet carries a number of parts. A part that is not finished
goes on in the next packet. With the last packet the parts are handed to
`complete_request`: the first of them is a header, the others the payload.

How a header is parsed and what the dealer handles are not modelled; both may
give any result. Every call of `complete_request` and what was sent to a
callback is kept as a history. The sequence generator and the future side of a
request are left out.
-/

namespace Mercury

open ByteFields Outcomes Words

inductive PacketType where
  | secretBlock | ping | streamChunk | streamChunkRes | channelError | channelAbort | requestKey
  | aesKey | aesKeyError | image | countryCode | pong | pongAck | pause | productInfo
  | legacyWelcome | licenseVersion | login | apWelcome | authFailure | mercuryReq | mercurySub
  | mercuryUnsub | mercuryEvent | trackEndedTime | unknownDataAllZeros | preferredLocale
  | unknown0x0f | unknown0x10 | unknown0x4f | unknown0xb6
  deriving DecidableEq, Repr

namespace PacketType

def code : PacketType → UInt8
  | secretBlock => 0x02
  | ping => 0x04
  | streamChunk => 0x08
  | streamChunkRes => 0x09
  | channelError => 0x0a
  | channelAbort => 0x0b
  | requestKey => 0x0c
  | aesKey => 0x0d
  | aesKeyError => 0x0e
  | image => 0x19
  | countryCode => 0x1b
  | pong => 0x49
  | pongAck => 0x4a
  | pause => 0x4b
  | productInfo => 0x50
  | legacyWelcome => 0x69
  | licenseVersion => 0x76
  | login => 0xab
  | apWelcome => 0xac
  | authFailure => 0xad
  | mercuryReq => 0xb2
  | mercurySub => 0xb3
  | mercuryUnsub => 0xb4
  | mercuryEvent => 0xb5
  | trackEndedTime => 0x82
  | unknownDataAllZeros => 0x1f
  | preferredLocale => 0x74
  | unknown0x0f => 0x0f
  | unknown0x10 => 0x10
  | unknown0x4f => 0x4f
  | unknown0xb6 => 0xb6

def all : List PacketType :=
  [secretBlock, ping, streamChunk, streamChunkRes, channelError, channelAbort, requestKey, aesKey,
    aesKeyError, image, countryCode, pong, pongAck, pause, productInfo, legacyWelcome,
    licenseVersion, login, apWelcome, authFailure, mercuryReq, mercurySub, mercuryUnsub,
    mercuryEvent, trackEndedTime, unknownDataAllZeros, preferredLocale, unknown0x0f, unknown0x10,
    unknown0x4f, unknown0xb6]

/-- `FromPrimitive::from_u8`. -/
def fromU8 (cmd : UInt8) : Option PacketType := all.find? fun type => type.code == cmd

end PacketType

/-- The sending half of a oneshot channel. -/
structure Callback where
  id : Nat
  /-- The other half has not been dropped. -/
  connected : Bool
  deriving DecidableEq

structure MercuryPending where
  parts : List Bytes
  /-- The part that goes on in the next packet. -/
  partialPart : Option Bytes
  callback : Option Callback
  deriving DecidableEq

structure MercuryResponse where
  uri : Bytes
  statusCode : Int
  payload : List Bytes
  deriving DecidableEq

inductive MercuryError where
  | channel
  | command (cmd : PacketType)
  | response (r : MercuryResponse)
  /-- The header is no protobuf message. -/
  | header
  deriving DecidableEq

structure Subscription where
  uri : Bytes
  connected : Bool
  received : List MercuryResponse
  deriving DecidableEq

structure Header where
  uri : Bytes
  statusCode : Int

/-- What is decided outside of Mercury. -/
structure Env where
  parseHeader : Bytes → Option Header
  dealerHandles : Bytes → Bool

structure MercuryManager where
  pending : Bytes → Option MercuryPending
  subscriptions : List Subscription
  /-- What was sent to the callbacks. -/
  delivered : List (Nat × Except MercuryError MercuryResponse)
  /-- The sequence number and the parts of each call of `complete_request`. -/
  completed : List (Bytes × List Bytes)

/-- `form_urlencoded::byte_serialize`, for one byte. -/
def byteSerialize (b : UInt8) : Bytes :=
  let n := b.toNat
  let hex (digit : Nat) : UInt8 := UInt8.ofNat (if digit < 10 then 48 + digit else 55 + digit)
  if 48 ≤ n ∧ n ≤ 57 ∨ 65 ≤ n ∧ n ≤ 90 ∨ 97 ≤ n ∧ n ≤ 122 ∨ n = 42 ∨ n = 45 ∨ n = 46 ∨
      n = 95 then [b]
  else if n = 32 then [43] else [37, hex (n / 16), hex (n % 16)]

/-- The first component of the path stays as it is. -/
def encodeUri (uri : Bytes) : Bytes :=
  match uri.splitOn 47 with
  | [] => []
  | first :: rest => List.intercalate [47] (first :: rest.map fun part =>
    part.flatMap byteSerialize)

namespace MercuryPending

def new : MercuryPending := ⟨[], none, none⟩

/-- One more part of a packet, which is finished or not. -/
def addPart (pending : MercuryPending) (unfinished : Bool) (part : Bytes) : MercuryPending :=
  let part := pending.partialPart.getD [] ++ part
  if unfinished then { pending with partialPart := some part }
  else { pending with partialPart := none, parts := pending.parts ++ [part] }

/-- The parts of a packet; with the flags 2 the last one is not finished. -/
def addParts (flags : UInt8) (pending : MercuryPending) : List Bytes → MercuryPending
  | [] => pending
  | part :: rest => (pending.addPart (rest.isEmpty && flags == 2) part).addParts flags rest

end MercuryPending

/-- The sequence number, the flags and the number of parts. -/
def readHead (data : Bytes) : Except Panic (Bytes × UInt8 × Nat × Bytes) :=
  (readField data).bind fun (seq, data) =>
    (splitTo 1 data).bind fun (flags, data) => (index flags 0).bind fun flags =>
      (splitTo 2 data).bind fun (count, data) => .ok (seq, flags, beNat count, data)

/-- The loop over the parts that are still to be read. -/
def receiveParts (flags : UInt8) :
    Nat → MercuryPending → Bytes → Except Panic (MercuryPending × Bytes)
  | 0, pending, data => .ok (pending, data)
  | left + 1, pending, data => (readField data).bind fun (part, data) =>
    receiveParts flags left (pending.addPart (left == 0 && flags == 2) part) data

namespace MercuryManager

def insert (m : MercuryManager) (seq : Bytes) (pending : MercuryPending) : MercuryManager :=
  { m with pending := Function.update m.pending seq (some pending) }

def remove (m : MercuryManager) (seq : Bytes) : MercuryManager :=
  { m with pending := Function.update m.pending seq none }

/-- `error` when the receiver is gone. -/
def send (m : MercuryManager) (callback : Callback)
    (message : Except MercuryError MercuryResponse) : MercuryManager × Except MercuryError Unit :=
  if callback.connected then ({ m with delivered := m.delivered ++ [(callback.id, message)] },
    .ok ())
  else (m, .error .channel)

/-- Subscriptions that cannot be served are given up. -/
def notify (m : MercuryManager) (uri : Bytes) (response : MercuryResponse) : MercuryManager :=
  { m with subscriptions := m.subscriptions.filterMap fun sub =>
      if sub.uri.isPrefixOf uri then
        if sub.connected then some { sub with received := sub.received ++ [response] } else none
      else some sub }

/-- The response goes to the callback or to the subscriptions. -/
def respond (env : Env) (m : MercuryManager) (cmd : PacketType) (callback : Option Callback)
    (response : MercuryResponse) : MercuryManager × Except MercuryError Unit :=
  if 500 ≤ response.statusCode then (m, .error (.response response))
  else if 400 ≤ response.statusCode then
    match callback with
    | none => (m, .error (.response response))
    | some callback =>
      match m.send callback (.error (.response response)) with
      | (m, .ok ()) => (m, .error (.response response))
      | (m, .error e) => (m, .error e)
  else if cmd = .mercuryEvent then
    let uri := encodeUri response.uri
    let found := m.subscriptions.any fun sub => sub.uri.isPrefixOf uri
    let m := m.notify uri response
    if found || env.dealerHandles response.uri then (m, .ok ())
      else (m, .error (.response response))
  else
    match callback with
    | some callback => m.send callback (.ok response)
    | none => (m, .error (.response response))

def completeRequest (env : Env) (m : MercuryManager) (cmd : PacketType) (pending : MercuryPending) :
    Except Panic (MercuryManager × Except MercuryError Unit) :=
  match pending.parts with
  | [] => .error .remove
  | headerData :: payload =>
    match env.parseHeader headerData with
    | none => .ok (m, .error .header)
    | some header =>
      .ok (m.respond env cmd pending.callback ⟨header.uri, header.statusCode, payload⟩)

/-- The request a packet belongs to; an event needs none. -/
def awaited (m : MercuryManager) (cmd : PacketType) (seq : Bytes) : Option MercuryPending :=
  (m.pending seq).or (if cmd = .mercuryEvent then some .new else none)

/-- Behind the sequence number, the flags and the number of parts. -/
def receive (env : Env) (m : MercuryManager) (cmd : PacketType) (seq : Bytes) (flags : UInt8)
    (count : Nat) (data : Bytes) : Except Panic (MercuryManager × Except MercuryError Unit) :=
  match m.awaited cmd seq with
  | none => .ok (m, .error (.command cmd))
  | some pending =>
    let m := m.remove seq
    (receiveParts flags count pending data).bind fun (pending, _) =>
      if flags = 1 then
        { m with
          completed := m.completed ++ [(seq, pending.parts)] }.completeRequest env cmd pending
      else .ok (m.insert seq pending, .ok ())

def dispatch (env : Env) (m : MercuryManager) (cmd : PacketType) (data : Bytes) :
    Except Panic (MercuryManager × Except MercuryError Unit) :=
  (readHead data).bind fun (seq, flags, count, data) => m.receive env cmd seq flags count data

end MercuryManager

/-- A packet: sequence number, flags, number of parts, and the parts. -/
def frame (seq : Bytes) (flags : UInt8) (parts : List Bytes) : Bytes :=
  field seq ++ [flags] ++ be16 parts.length ++ parts.flatMap field

/-- The parts are read as fields and then added to what is pending. -/
theorem receiveParts_eq (flags : UInt8) (count : Nat) (pending : MercuryPending) (data : Bytes) :
    receiveParts flags count pending data =
      (readFields count data).bind fun (parts, rest) =>
      .ok (pending.addParts flags parts, rest) := by
  induction count generalizing pending data with
  | zero => rfl
  | succ left ih =>
    rw [receiveParts, readFields]
    cases readField data with
    | error p => rfl
    | ok read =>
      obtain ⟨part, more⟩ := read
      simp only [Except.bind, ih]
      cases fields : readFields left more with
      | error p => rfl
      | ok read =>
        obtain ⟨parts, rest⟩ := read
        have last : (left == 0) = parts.isEmpty := by
          rw [← (readFields_eq_ok.mp fields).1]
          cases parts <;> rfl
        simp only [last, MercuryPending.addParts]

theorem readHead_eq_ok {data seq rest : Bytes} {flags : UInt8} {count : Nat} :
    readHead data = .ok (seq, flags, count, rest) ↔ seq.length < 65536 ∧ count < 65536 ∧
      data = field seq ++ [flags] ++ be16 count ++ rest := by
  rw [readHead]
  constructor
  · intro read
    obtain ⟨⟨seq', more⟩, first, read₁⟩ := ok_of_bind read
    obtain ⟨⟨flag, more'⟩, second, read₂⟩ := ok_of_bind read₁
    obtain ⟨flags', third, read₃⟩ := ok_of_bind read₂
    obtain ⟨⟨size, more''⟩, fourth, read₄⟩ := ok_of_bind read₃
    obtain ⟨short, rfl⟩ := readField_eq_ok.mp first
    obtain ⟨rfl, one⟩ := splitTo_eq_ok.mp second
    obtain ⟨rfl, two⟩ := splitTo_eq_ok.mp fourth
    obtain ⟨b, rfl⟩ := List.length_eq_one_iff.mp one
    cases third
    cases read₄
    obtain ⟨below, same⟩ := be16_beNat two
    exact ⟨short, below, by simp [same]⟩
  · rintro ⟨short, below, rfl⟩
    have first : readField (field seq ++ ([flags] ++ (be16 count ++ rest))) =
        .ok (seq, [flags] ++ (be16 count ++ rest)) := readField_eq_ok.mpr ⟨short, rfl⟩
    have second : splitTo 1 ([flags] ++ (be16 count ++ rest)) = .ok ([flags], be16 count ++ rest) :=
      splitTo_append [flags] _
    have fourth : splitTo 2 (be16 count ++ rest) = .ok (be16 count, rest) :=
      splitTo_append (be16 count) rest
    have size : beNat (be16 count) = count := by rw [beNat_be16, Nat.mod_eq_of_lt below]
    rw [List.append_assoc, List.append_assoc, first]
    simp only [Except.bind, second, index, List.getElem?_cons_zero, fourth, size]

end Mercury
