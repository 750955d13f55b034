import Mathlib.Data.List.Basic

/-!
# Decoders and sinks

The two trait objects the player drives. A decoder and a sink are arbitrary
types with operations that return a result and the changed object, so every
sequence of results is a decoder or a sink of some type.

The second half is the passthrough decoder of the streaming-only build. The
`ogg` crate is not part of the repository: its packet reader appears as the
list of results that `read_packet` still has to give, its packet writer and
the floating-point position conversion as an `OggBackend`.
-/

namespace AudioDecoder

inductive DecoderError where
  | passthroughDecoder (message : String)
  | symphoniaDecoder (message : String)
  deriving DecidableEq

inductive AudioPacket where
  | samples (data : List Float)
  | raw (data : List UInt8)

namespace AudioPacket

def isEmpty : AudioPacket → Bool
  | samples data => data.isEmpty
  | raw data => data.isEmpty

/-- `AudioPacket::samples` succeeds on decoded samples only. -/
def hasSamples : AudioPacket → Bool
  | samples _ => true
  | raw _ => false

end AudioPacket

structure AudioPacketPosition where
  positionMs : UInt32
  skipped : Bool
  deriving DecidableEq

/-- What `next_packet` hands to the player; `none` is the end of the track. -/
abbrev NextPacket := Except DecoderError (Option (AudioPacketPosition × AudioPacket))

/-- The decoder trait. Both operations also return the decoder they leave behind. -/
class Decoder (D : Type) where
  seek : D → UInt32 → Except DecoderError UInt32 × D
  nextPacket : D → NextPacket × D

/-- The sink trait; the error value is only logged by the player. -/
class Sink (S : Type) where
  start : S → Except String Unit × S
  stop : S → Except String Unit × S
  write : S → AudioPacket → Except String Unit × S

inductive OggReadError where
  | noCapturePatternFound
  | other (message : String)
  deriving DecidableEq

structure Packet where
  data : List UInt8
  absgpPage : UInt64
  lastInPage : Bool
  lastInStream : Bool
  deriving DecidableEq

inductive PacketWriteEndInfo where
  | normalPacket
  | endPage
  | endStream
  deriving DecidableEq

/-- The `ogg` packet writer over a byte vector, and `position_pcm_to_ms`. -/
class OggBackend (W : Type) where
  writePacket : W → List UInt8 → UInt32 → PacketWriteEndInfo → UInt64 → Except String Unit × W
  inner : W → List UInt8
  clearInner : W → W
  positionPcmToMs : UInt64 → UInt32

structure PassthroughDecoder (W : Type) where
  rdr : List (Except OggReadError Packet)
  wtr : W
  eos : Bool
  bos : Bool
  ofsgpPage : UInt64
  streamSerial : UInt32
  ident : List UInt8
  comment : List UInt8
  setup : List UInt8

namespace PassthroughDecoder

variable {W : Type} [OggBackend W]

/-- The streaming-only `seek`: position zero of a stream that has not started. -/
def seek (d : PassthroughDecoder W) (positionMs : UInt32) :
    Except DecoderError UInt32 × PassthroughDecoder W :=
  if positionMs = 0 ∧ d.bos = false then (.ok 0, d)
  else (.error (.passthroughDecoder "seek is unsupported in streaming-only mode"), d)

def writePacket (d : PassthroughDecoder W) (data : List UInt8) (info : PacketWriteEndInfo)
    (absgp : UInt64) : Except DecoderError Unit × PassthroughDecoder W :=
  match OggBackend.writePacket d.wtr data d.streamSerial info absgp with
  | (.ok _, wtr) => (.ok (), { d with wtr := wtr })
  | (.error e, wtr) => (.error (.passthroughDecoder e), { d with wtr := wtr })

/-- The three Vorbis headers, written when the stream is (re)started. -/
def writeHeaders (d : PassthroughDecoder W) : Except DecoderError Unit × PassthroughDecoder W :=
  if d.bos then (.ok (), d)
  else match writePacket d d.ident .endPage 0 with
    | (.error e, d) => (.error e, d)
    | (.ok _, d) => match writePacket d d.comment .normalPacket 0 with
      | (.error e, d) => (.error e, d)
      | (.ok _, d) => match writePacket d d.setup .endPage 0 with
        | (.error e, d) => (.error e, d)
        | (.ok _, d) => (.ok (), { d with bos := true })

def endInfo (pck : Packet) : PacketWriteEndInfo :=
  if pck.lastInStream then .endStream
  else if pck.lastInPage then .endPage
  else .normalPacket

/-- The packet loop of `next_packet`, over what the packet reader still returns. -/
def packetLoop : List (Except OggReadError Packet) → PassthroughDecoder W →
    NextPacket × PassthroughDecoder W
  | [], d => (.ok none, { d with rdr := [] })
  | .error .noCapturePatternFound :: rest, d => (.ok none, { d with rdr := rest })
  | .error (.other message) :: rest, d =>
    (.error (.passthroughDecoder message), { d with rdr := rest })
  | .ok pck :: rest, d =>
    -- no audio yet, or no granule position to compute with
    if pck.absgpPage = 0 ∨ pck.absgpPage = d.ofsgpPage then packetLoop rest d
    else
      let d := { d with eos := d.eos || pck.lastInStream }
      match writePacket d pck.data (endInfo pck) (pck.absgpPage - d.ofsgpPage) with
      | (.error e, d) => (.error e, { d with rdr := rest })
      | (.ok _, d) =>
        let data := OggBackend.inner d.wtr
        if data.isEmpty then packetLoop rest d
        else
          (.ok (some (⟨OggBackend.positionPcmToMs W pck.absgpPage, false⟩, .raw data)),
            { d with rdr := rest, wtr := OggBackend.clearInner d.wtr })

def nextPacket (d : PassthroughDecoder W) : NextPacket × PassthroughDecoder W :=
  match writeHeaders d with
  | (.error e, d) => (.error e, d)
  | (.ok _, d) => packetLoop d.rdr d

instance : Decoder (PassthroughDecoder W) where
  seek := seek
  nextPacket := nextPacket

end PassthroughDecoder

end AudioDecoder
