import SqueezeboxConnect.Mercury
import SqueezeboxConnect.AccessPoint

/-!
# A Mercury request on the wire

A request is written as one packet: the sequence number, the flags of a last
packet, and the parts, of which the first is a header that `protobuf` writes. The
codec of the connection then writes the length of the packet in front of it. All
these lengths are cast to 16 bits, and no length is checked. What comes back on the
other side is the request if and only if the packet is short enough.
-/

namespace MercuryWire

open ByteFields Mercury Words
open AccessPoint

inductive MercuryMethod where
  | get
  | sub
  | unsub
  | send
  deriving DecidableEq

namespace MercuryMethod

def text : MercuryMethod → Bytes
  | get => [71, 69, 84]
  | sub => [83, 85, 66]
  | unsub => [85, 78, 83, 85, 66]
  | send => [83, 69, 78, 68]

def command : MercuryMethod → PacketType
  | get | send => .mercuryReq
  | sub => .mercurySub
  | unsub => .mercuryUnsub

end MercuryMethod

structure MercuryRequest where
  method : MercuryMethod
  uri : Bytes
  contentType : Option Bytes
  payload : List Bytes

/-- The message with the data of a request. -/
structure Header where
  uri : Bytes
  contentType : Option Bytes
  method : Bytes

/-- How such a message is written. -/
structure Protobuf where
  computeSize : Header → Nat
  write : Header → Bytes
  computeSize_eq : ∀ header, computeSize header = (write header).length

namespace MercuryRequest

variable (protobuf : Protobuf)

def header (r : MercuryRequest) : Header := ⟨r.uri, r.contentType, r.method.text⟩

def encode (r : MercuryRequest) (seq : Bytes) : Bytes :=
  be16 seq.length ++ seq ++ [1] ++ be16 (1 + r.payload.length % 65536) ++
    be16 (protobuf.computeSize r.header) ++ protobuf.write r.header ++
    r.payload.flatMap fun p => be16 p.length ++ p

def parts (r : MercuryRequest) : List Bytes := protobuf.write r.header :: r.payload

end MercuryRequest

variable (protobuf : Protobuf)

theorem encode_eq_frame (r : MercuryRequest) (seq : Bytes) :
    r.encode protobuf seq = frame seq 1 (r.parts protobuf) := by
  have count : be16 (1 + r.payload.length % 65536) = be16 (r.payload.length + 1) :=
    be16_congr (by omega)
  simp only [MercuryRequest.encode, frame, count, MercuryRequest.parts, List.length_cons,
    List.flatMap_cons, List.append_assoc, protobuf.computeSize_eq]
  simp only [field, List.append_assoc]
  rfl

/-- The bytes of a packet: two for every length, one for the flags and two for the number of
parts. -/
def packetLength (seq : Bytes) (parts : List Bytes) : Nat :=
  2 + seq.length + 3 + (parts.map fun part => 2 + part.length).sum

theorem length_frame (seq : Bytes) (flags : UInt8) (parts : List Bytes) :
    (frame seq flags parts).length = packetLength seq parts := by
  have fields : (parts.flatMap field).length = (parts.map fun part => 2 + part.length).sum := by
    rw [List.length_flatMap]
    simp only [field, List.length_append, length_be16]
  rw [packetLength, ← fields, frame]
  simp only [List.length_append, List.length_singleton, length_be16, field]

/-- The sequence number, the number of parts and every part are shorter than the packet. -/
theorem lengths_lt_packetLength (seq : Bytes) (parts : List Bytes) :
    seq.length < packetLength seq parts ∧ parts.length < packetLength seq parts ∧
      ∀ part ∈ parts, part.length < packetLength seq parts := by
  have sums : parts.length ≤ (parts.map fun part => 2 + part.length).sum ∧
      ∀ part ∈ parts, part.length ≤ (parts.map fun part => 2 + part.length).sum := by
    induction parts with
    | nil => simp
    | cons first rest ih =>
      rw [List.map_cons, List.sum_cons, List.length_cons, List.forall_mem_cons]
      refine ⟨by omega, by omega, fun part inside => ?_⟩
      have := ih.2 part inside
      omega
  rw [packetLength]
  refine ⟨by omega, by omega, fun part inside => ?_⟩
  have := sums.2 part inside
  omega

variable {protobuf} {State : Type} {c : AccessPoint.Shannon State}

/-- What the other side makes of the bytes of a request: the sequence number, the number of
parts and the parts. -/
def Recovered (protobuf : Protobuf) (c : Shannon State) (e d : ApCodec State) (r : MercuryRequest)
    (seq : Bytes) : Prop :=
  ∃ d' buf cmd data flags rest rest',
    d.decode c (e.encode c (r.method.command.code, r.encode protobuf seq) []).2 =
      (d', buf, .ok (some (cmd, data))) ∧
    readHead data = .ok (seq, flags, (r.parts protobuf).length, rest) ∧
    readFields (r.parts protobuf).length rest = .ok (r.parts protobuf, rest')

/-- Two ends of a connection before a packet. -/
structure Paired (cipher : StreamCipher c) (e d : ApCodec State) : Prop where
  key_eq : cipher.key e.encodeCipher = cipher.key d.decodeCipher
  nonce_eq : e.encodeNonce = d.decodeNonce
  header : d.decodeState = .header

theorem decodePayload_length (cipher : StreamCipher c)
    {d d' : ApCodec State} {cmd cmd' : UInt8} {size : Nat}
    (state : d.decodeState = .payload cmd size) {buf buf' data : Bytes}
    (decoded : d.decodePayload c buf = (d', buf', .ok (some (cmd', data)))) :
    data.length ≤ size := by
  simp only [ApCodec.decodePayload, state] at decoded
  split at decoded
  · split at decoded
    · cases decoded
    · split at decoded
      · cases decoded
        rw [cipher.length_decrypt, List.length_take]
        exact Nat.min_le_left ..
      · cases decoded
  · cases decoded

/-- A payload that was decoded is never longer than its 16-bit length. -/
theorem decoded_short (cipher : StreamCipher c) {d d' : ApCodec State}
    (header : d.decodeState = .header) {buf buf' : Bytes} {cmd : UInt8} {data : Bytes}
    (decoded : d.decode c buf = (d', buf', .ok (some (cmd, data)))) : data.length ≤ 65535 := by
  rw [ApCodec.decode] at decoded
  by_cases enough : HEADER_SIZE ≤ buf.length
  · have three : (buf.take 3).length = 3 := List.length_take_of_le enough
    have length := cipher.length_decrypt (buf.take 3) (c.nonceU32 d.decodeNonce d.decodeCipher)
    rcases opened : c.decrypt (buf.take 3) (c.nonceU32 d.decodeNonce d.decodeCipher) with ⟨first,
      middle⟩
    have arrived := decodeHeader_arrived header three (buf.drop 3) opened
    rw [List.take_append_drop] at arrived
    rw [arrived] at decoded
    have two : (first.drop 1).length = 2 := by
      rw [opened, three] at length
      rw [List.length_drop, length]
    have below := (be16_beNat two).1
    have size := decodePayload_length cipher rfl decoded
    omega
  · rw [ApCodec.decodeHeader, if_neg fun both => enough both.2] at decoded
    simp only [ApCodec.decodePayload, header] at decoded
    cases decoded

/-- What can be read back has all its lengths within the packet. -/
theorem recovered_short (cipher : StreamCipher c) {e d : ApCodec State}
    (header : d.decodeState = .header) {r : MercuryRequest} {seq : Bytes}
    (recovered : Recovered protobuf c e d r seq) :
    packetLength seq (r.parts protobuf) ≤ 65535 := by
  obtain ⟨d', buf, cmd, data, flags, rest, rest', decoded, head, fields⟩ := recovered
  obtain ⟨-, -, rfl⟩ := readHead_eq_ok.mp head
  obtain ⟨-, -, rfl⟩ := readFields_eq_ok.mp fields
  have short := decoded_short cipher header decoded
  rw [← length_frame seq 1, frame]
  simp only [List.length_append, List.length_singleton, length_be16] at short ⊢
  omega

theorem recovered_of_short (cipher : StreamCipher c) {e d : ApCodec State}
    (paired : Paired cipher e d) {r : MercuryRequest} {seq : Bytes}
    (short : packetLength seq (r.parts protobuf) ≤ 65535) : Recovered protobuf c e d r seq := by
  let item : Item := (r.method.command.code, r.encode protobuf seq)
  have length : (r.encode protobuf seq).length ≤ 65535 := by
    rwa [encode_eq_frame, length_frame]
  have keyed : cipher.key e.encodeCipher = cipher.key e.encodeCipher := rfl
  obtain ⟨bytes, -, -⟩ := encode_wire cipher keyed item []
  have expects : Expects cipher (cipher.key e.encodeCipher) (d.decodeNonce + 1) d
      (e.encode c item []).2 [item] [] := by
    refine ⟨paired.key_eq.symm, by simpa [item] using length, ?_⟩
    rw [paired.header]
    refine ⟨?_, rfl⟩
    rw [bytes, paired.nonce_eq, wire, wire, List.nil_append]
  obtain ⟨d', buf, ⟨-, expects', waits⟩ | ⟨_, _, same, decoded, -⟩⟩ :=
    decode_expects cipher expects
  · cases (AccessPoint.waits_end cipher expects' waits).1
  · cases same
    obtain ⟨seq_lt, count_lt, part_lt⟩ := lengths_lt_packetLength seq (r.parts protobuf)
    have head : readHead (r.encode protobuf seq) =
        .ok (seq, 1, (r.parts protobuf).length, (r.parts protobuf).flatMap field) :=
      readHead_eq_ok.mpr ⟨by omega, by omega, encode_eq_frame protobuf r seq⟩
    have fields : readFields (r.parts protobuf).length ((r.parts protobuf).flatMap field) =
        .ok (r.parts protobuf, []) := by
      refine readFields_eq_ok.mpr ⟨rfl, fun part inside => ?_, (List.append_nil _).symm⟩
      have := part_lt part inside
      omega
    exact ⟨d', buf, _, _, 1, _, _, decoded, head, fields⟩

/-- A request arrives as it was sent exactly if its packet has at most 65535 bytes. -/
theorem recovered_iff (protobuf : Protobuf) (cipher : AccessPoint.StreamCipher c)
    (e d : AccessPoint.ApCodec State) (paired : Paired cipher e d) (r : MercuryRequest)
    (seq : Bytes) :
    Recovered protobuf c e d r seq ↔ packetLength seq (r.parts protobuf) ≤ 65535 :=
  ⟨recovered_short cipher paired.header, recovered_of_short cipher paired⟩

section Examples

def radio : ApCodec (Bytes × UInt8) := .new shift [1] [2]

def accessPoint : ApCodec (Bytes × UInt8) := .new shift [2] [1]

def send (payload : List Bytes) : MercuryRequest := ⟨.send, [104, 109, 58], none, payload⟩

/-- The fields one after the other. -/
def plainProtobuf : Protobuf where
  computeSize header := (header.uri ++ header.contentType.getD [] ++ header.method).length
  write header := header.uri ++ header.contentType.getD [] ++ header.method
  computeSize_eq _ := rfl

theorem paired_new : Paired shift_streamCipher radio accessPoint := ⟨rfl, rfl, rfl⟩

theorem threeBytes_recovered :
    Recovered plainProtobuf AccessPoint.shift radio accessPoint (send [[7, 8, 9]]) [0, 1] :=
  (recovered_iff plainProtobuf AccessPoint.shift_streamCipher radio accessPoint paired_new _ _).mpr
    (by decide)

/-- A part of 65536 bytes is announced with the length 0, without an error. -/
theorem longPart_not_recovered :
    ¬ Recovered plainProtobuf AccessPoint.shift radio accessPoint (send [List.replicate 65536 0])
      [0, 1] := by
  intro recovered
  have short := recovered_short AccessPoint.shift_streamCipher rfl recovered
  obtain ⟨-, -, long⟩ :=
    lengths_lt_packetLength [0, 1] ((send [List.replicate 65536 0]).parts plainProtobuf)
  have part := long (List.replicate 65536 0) (List.mem_cons_of_mem _ List.mem_cons_self)
  rw [List.length_replicate] at part
  exact absurd (Nat.lt_of_lt_of_le part short) (by decide)

end Examples

end MercuryWire
