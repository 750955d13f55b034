import Mathlib.Algebra.Ring.Nat
import Mathlib.Logic.Function.Basic
import SqueezeboxConnect.AudioDecoder
import SqueezeboxConnect.Demuxing
import SqueezeboxConnect.Words

/-!
# What the decoder assumes of the packet writer

The `ogg` crate is not part of the repository. Any type with the laws below is a
packet writer here: it appends whole pages to its output, the first page of a serial
number and no other has the BOS flag, packets are laced in the standard way, and a
page ends where the caller says so. Whoever reads the output as a stream assumes also
that the pages are numbered, that continued packets are flagged, and that a page has
the granule position of a packet that ends on it.

At the end stands one such writer. It gives every segment a page of its own and holds
nothing back.
-/

namespace OggWriter

open AudioDecoder OggPage Demuxing Words

/-- The segments of a packet; only the last one is shorter than 255 bytes. -/
def pieces (data : Bytes) : List Bytes :=
  if data.length < 255 then [data] else data.take 255 :: pieces (data.drop 255)
termination_by data.length
decreasing_by simp only [List.length_drop]; omega

/-- What has become of the packets of a serial number: the pages so far, the segments on the
page that is being filled, and the granule position of the last packet. -/
structure Stream where
  pages : List Page
  segments : List Bytes
  granule : UInt64

section Laws

/-- Every page, together with the pages in front of it. -/
def Each (P : List Page → Page → Prop) (pages : List Page) : Prop :=
  ∀ front p back, pages = front ++ p :: back → P front p

structure Paged (serial : UInt32) (front : List Page) (p : Page) : Prop where
  serial_eq : p.serial = serial.toNat
  bos_eq : p.isBos = front.isEmpty
  filled : segments p ≠ []

/-- A packet has been written, and with it some pages. -/
structure Wrote (before after : Stream) (data : Bytes) (inf : PacketWriteEndInfo)
    (pages : List Page) : Prop where
  pages_eq : after.pages = before.pages ++ pages
  lacing : before.segments ++ pieces data = pages.flatMap segments ++ after.segments
  ends : inf ≠ .normalPacket → after.segments = []

/-- A packet writer over a byte vector. -/
class LawfulWriter (W : Type) extends OggBackend W where
  new : W
  stream : W → UInt32 → Stream
  new_inner : inner new = []
  new_stream : ∀ serial, (stream new serial).pages = [] ∧ (stream new serial).segments = []
  clear_inner : ∀ w, inner (clearInner w) = []
  clear_stream : ∀ w serial, stream (clearInner w) serial = stream w serial
  paged : ∀ w serial, Each (Paged serial) (stream w serial).pages
  succeeds : ∀ w data serial inf absgp, (writePacket w data serial inf absgp).1 = .ok ()
  writes : ∀ w data serial inf absgp, ∃ pages,
    inner (writePacket w data serial inf absgp).2 = inner w ++ flatten pages ∧
      Wrote (stream w serial) (stream (writePacket w data serial inf absgp).2 serial) data inf pages

/-- The part of a packet that is left open behind some pages. -/
def leftOpen (pages : List Page) : Bytes := (scan [] (pages.flatMap segments)).2

structure Numbered (front : List Page) (p : Page) : Prop where
  sequence_eq : sequence p = front.length % 2 ^ 32
  continued_eq : isContinued p = !(leftOpen front).isEmpty

/-- The granule position of the packet, or the one of a packet on the same page before. -/
structure Timed (before after : Stream) (absgp : UInt64) (pages : List Page) : Prop where
  page : ∀ p ∈ pages, (∃ segment ∈ segments p, segment.length < 255) →
    p.granule = absgp.toNat ∨ before.segments ≠ [] ∧ p.granule = before.granule.toNat
  left : after.segments ≠ [] → after.granule = absgp

class LawfulMuxer (W : Type) extends LawfulWriter W where
  numbered : ∀ w serial, Each Numbered (stream w serial).pages
  timed : ∀ w data serial inf absgp pages,
    (stream (writePacket w data serial inf absgp).2 serial).pages =
      (stream w serial).pages ++ pages →
    Timed (stream w serial) (stream (writePacket w data serial inf absgp).2 serial) absgp pages

end Laws

section Decoder

theorem pieces_ne_nil (data : Bytes) : pieces data ≠ [] := by
  rw [pieces]
  split <;> simp

variable {W : Type} [LawfulWriter W]

/-- What the constructor makes of the headers it has read, with the rest of the input. -/
def constructed (W : Type) [LawfulWriter W] (serial : UInt32) (ident comment setup : Bytes)
    (rdr : List (Except OggReadError Packet)) : PassthroughDecoder W where
  rdr := rdr
  wtr := LawfulWriter.new
  ofsgpPage := 0
  streamSerial := serial
  ident := ident
  comment := comment
  setup := setup
  eos := false
  bos := false

/-- The writer with a further packet. -/
def wrote (w : W) (data : Bytes) (serial : UInt32) (inf : PacketWriteEndInfo) (absgp : UInt64) :
    W :=
  (OggBackend.writePacket w data serial inf absgp).2

theorem wrote_spec (w : W) (data : Bytes) (serial : UInt32) (inf : PacketWriteEndInfo)
    (absgp : UInt64) :
    ∃ pages, OggBackend.inner (wrote w data serial inf absgp) = OggBackend.inner w ++
      flatten pages ∧
      Wrote (LawfulWriter.stream w serial)
        (LawfulWriter.stream (wrote w data serial inf absgp) serial) data inf pages :=
  LawfulWriter.writes w data serial inf absgp

theorem writePacket_eq (d : PassthroughDecoder W) (data : Bytes) (inf : PacketWriteEndInfo)
    (absgp : UInt64) :
    d.writePacket data inf absgp =
      (.ok (), { d with wtr := wrote d.wtr data d.streamSerial inf absgp }) := by
  have done := LawfulWriter.succeeds d.wtr data d.streamSerial inf absgp
  rw [PassthroughDecoder.writePacket, wrote]
  generalize OggBackend.writePacket d.wtr data d.streamSerial inf absgp = reply at done
  obtain ⟨result, w⟩ := reply
  subst done
  rfl

/-- The writer with the headers. -/
def headed (W : Type) [LawfulWriter W] (serial : UInt32) (ident comment setup : Bytes) : W :=
  wrote (wrote (wrote LawfulWriter.new ident serial .endPage 0) comment serial .normalPacket 0)
    setup serial .endPage 0

/-- The header pages hold the segments of the three headers and nothing else. -/
theorem headed_pages (W : Type) [LawfulWriter W] (serial : UInt32) (ident comment setup : Bytes) :
    ∃ header, (LawfulWriter.stream (headed W serial ident comment setup) serial).pages = header ∧
      OggBackend.inner (headed W serial ident comment setup) = flatten header ∧
      header.flatMap segments = pieces ident ++ pieces comment ++ pieces setup ∧
      (LawfulWriter.stream (headed W serial ident comment setup) serial).segments = [] := by
  obtain ⟨nothing, empty⟩ := @LawfulWriter.new_stream W _ serial
  have blank := @LawfulWriter.new_inner W _
  rw [headed]
  generalize (LawfulWriter.new : W) = w at *
  obtain ⟨pages₁, inner₁, wrote₁⟩ := wrote_spec w ident serial .endPage 0
  generalize wrote w ident serial .endPage 0 = w₁ at *
  obtain ⟨pages₂, inner₂, wrote₂⟩ := wrote_spec w₁ comment serial .normalPacket 0
  generalize wrote w₁ comment serial .normalPacket 0 = w₂ at *
  obtain ⟨pages₃, inner₃, wrote₃⟩ := wrote_spec w₂ setup serial .endPage 0
  have first := wrote₁.lacing
  have second := wrote₂.lacing
  have third := wrote₃.lacing
  rw [wrote₁.ends (by decide), empty, List.nil_append, List.append_nil] at first
  rw [wrote₁.ends (by decide), List.nil_append] at second
  rw [wrote₃.ends (by decide), List.append_nil] at third
  refine ⟨pages₁ ++ pages₂ ++ pages₃, ?_, ?_, ?_, wrote₃.ends (by decide)⟩
  · rw [wrote₃.pages_eq, wrote₂.pages_eq, wrote₁.pages_eq, nothing, List.nil_append]
  · rw [inner₃, inner₂, inner₁, blank]
    simp
  · simp only [List.flatMap_append, first, second, List.append_assoc, ← third]

theorem writeHeaders_eq (W : Type) [LawfulWriter W] (serial : UInt32) (ident comment setup : Bytes)
    (rdr : List (Except OggReadError Packet)) :
    (constructed W serial ident comment setup rdr).writeHeaders =
      (.ok (), { constructed W serial ident comment setup rdr with
        bos := true, wtr := headed W serial ident comment setup }) := by
  simp only [PassthroughDecoder.writeHeaders, writePacket_eq]
  rfl

theorem nextPacket_headed (W : Type) [LawfulWriter W] (serial : UInt32)
    (ident comment setup : Bytes) (rdr : List (Except OggReadError Packet)) :
    (constructed W serial ident comment setup rdr).nextPacket =
      PassthroughDecoder.packetLoop rdr { constructed W serial ident comment setup rdr with
        bos := true, wtr := headed W serial ident comment setup } := by
  rw [PassthroughDecoder.nextPacket, writeHeaders_eq]
  rfl

theorem nextPacket_begun {d : PassthroughDecoder W} (begun : d.bos = true) :
    d.nextPacket = PassthroughDecoder.packetLoop d.rdr d := by
  rw [PassthroughDecoder.nextPacket, PassthroughDecoder.writeHeaders, if_pos begun]

end Decoder

section Paging

theorem pieces_short (data : Bytes) : ∀ segment ∈ pieces data, segment.length ≤ 255 := by
  induction data using pieces.induct with
  | case1 data short =>
    rw [pieces, if_pos short]
    exact List.forall_mem_singleton.mpr (Nat.le_of_lt short)
  | case2 data long ih =>
    rw [pieces, if_neg long]
    exact List.forall_mem_cons.mpr ⟨List.length_take_le .., ih⟩

/-- A number in the given number of bytes, least significant first. -/
def leBytes : Nat → Nat → Bytes
  | 0, _ => []
  | width + 1, n => UInt8.ofNat n :: leBytes width (n / 256)

theorem fromLeBytes_leBytes (width n : Nat) :
    fromLeBytes (leBytes width n) = n % 256 ^ width := by
  induction width generalizing n with
  | zero =>
    rw [Nat.pow_zero, Nat.mod_one]
    rfl
  | succ width ih =>
    have step : fromLeBytes (leBytes (width + 1) n) =
        (UInt8.ofNat n).toNat + 256 * fromLeBytes (leBytes width (n / 256)) := rfl
    rw [step, ih, UInt8.toNat_ofNat', @Nat.pow_add_one' 256 width, Nat.mod_mul]

/-- The flags of the page that follows. -/
def pageFlags (pages : List Page) : UInt8 :=
  (if (leftOpen pages).isEmpty then 0 else 1) ||| if pages.isEmpty then 2 else 0

/-- The header of a page with one segment, without a checksum. -/
def pageHeader (serial : UInt32) (absgp : UInt64) (pages : List Page) : Bytes :=
  [0x4F, 0x67, 0x67, 0x53, 0, pageFlags pages] ++ leBytes 8 absgp.toNat ++
    leBytes 4 serial.toNat ++ leBytes 4 pages.length ++ leBytes 4 0 ++ [1]

theorem lengthByte {segment : Bytes} (short : segment.length ≤ 255) :
    (UInt8.ofNat segment.length).toNat = segment.length := by
  rw [UInt8.toNat_ofNat']
  omega

variable (serial : UInt32) (absgp : UInt64) (pages : List Page)

/-- The page that follows the others, with one segment. -/
def nextPage (segment : { segment : Bytes // segment.length ≤ 255 }) : Page where
  bytes := pageHeader serial absgp pages ++ UInt8.ofNat segment.val.length :: segment.val
  capture := rfl
  size := by
    have size : pageLength (pageHeader serial absgp pages ++
        UInt8.ofNat segment.val.length :: segment.val) =
        28 + ((UInt8.ofNat segment.val.length).toNat + 0) := rfl
    have header : (pageHeader serial absgp pages).length = 27 := rfl
    rw [size, lengthByte segment.property, List.length_append, header, List.length_cons]
    omega

variable (segment : { segment : Bytes // segment.length ≤ 255 })

theorem nextPage_segments : segments (nextPage serial absgp pages segment) = [segment.val] :=
  congrArg (fun length => [segment.val.take length]) (lengthByte segment.property) |>.trans
    (by rw [List.take_length])

/-- The page has its serial number, its place and its flags. -/
structure InPlace (front : List Page) (p : Page) : Prop extends Paged serial front p,
    Numbered front p

theorem nextPage_inPlace : InPlace serial pages (nextPage serial absgp pages segment) := by
  refine ⟨⟨?_, ?_, ?_⟩, fromLeBytes_leBytes 4 pages.length, ?_⟩
  · exact (fromLeBytes_leBytes 4 serial.toNat).trans (Nat.mod_eq_of_lt serial.toNat_lt)
  · show (pageFlags pages).toNat.testBit 1 = _
    rw [pageFlags]
    cases (leftOpen pages).isEmpty <;> cases pages.isEmpty <;> decide
  · rw [nextPage_segments]
    exact List.cons_ne_nil _ _
  · show (pageFlags pages).toNat.testBit 0 = _
    rw [pageFlags]
    cases (leftOpen pages).isEmpty <;> cases pages.isEmpty <;> decide

theorem nextPage_granule : (nextPage serial absgp pages segment).granule = absgp.toNat :=
  (fromLeBytes_leBytes 8 absgp.toNat).trans (Nat.mod_eq_of_lt absgp.toNat_lt)

/-- The pages of a number of segments, behind others. -/
def nextPages (pages : List Page) : List { segment : Bytes // segment.length ≤ 255 } → List Page
  | [] => []
  | segment :: rest =>
    let p := nextPage serial absgp pages segment
    p :: nextPages (pages ++ [p]) rest

theorem each_concat {P : List Page → Page → Prop} {q : Page} (each : Each P pages)
    (new : P pages q) : Each P (pages ++ [q]) := by
  intro front p back split
  rcases List.eq_nil_or_concat back with rfl | ⟨back, r, rfl⟩
  · obtain ⟨rfl, same⟩ := List.append_inj' split rfl
    cases same
    exact new
  · rw [List.concat_eq_append, ← List.cons_append, ← List.append_assoc] at split
    exact each front p back (List.append_inj' split rfl).1

variable {pages}

theorem nextPages_spec (each : Each (InPlace serial) pages)
    (data : List { segment : Bytes // segment.length ≤ 255 }) :
    Each (InPlace serial) (pages ++ nextPages serial absgp pages data) ∧
      (nextPages serial absgp pages data).flatMap segments = data.map Subtype.val ∧
      ∀ p ∈ nextPages serial absgp pages data, p.granule = absgp.toNat := by
  induction data generalizing pages with
  | nil => exact ⟨by rwa [nextPages, List.append_nil], rfl, by simp [nextPages]⟩
  | cons segment rest ih =>
    obtain ⟨later, laced, granule⟩ :=
      ih (each_concat pages each (nextPage_inPlace serial absgp pages segment))
    rw [nextPages]
    refine ⟨by simpa using later, ?_, ?_⟩
    · rw [List.flatMap_cons, laced, nextPage_segments]
      rfl
    · exact List.forall_mem_cons.mpr ⟨nextPage_granule serial absgp pages segment, granule⟩

/-- The writer: its output, and the pages of every serial number. -/
structure PacketWriter where
  inner : Bytes
  pages (serial : UInt32) : { pages : List Page // Each (InPlace serial) pages }

namespace PacketWriter

variable (w : PacketWriter) (data : Bytes)

/-- The pages of a packet. -/
def further : List Page :=
  nextPages serial absgp (w.pages serial).val ((pieces data).attachWith _ (pieces_short data))

theorem further_spec :
    Each (InPlace serial) ((w.pages serial).val ++ w.further serial absgp data) ∧
      (w.further serial absgp data).flatMap segments = pieces data ∧
      ∀ p ∈ w.further serial absgp data, p.granule = absgp.toNat := by
  have spec := nextPages_spec serial absgp (w.pages serial).property
    ((pieces data).attachWith _ (pieces_short data))
  rwa [List.attachWith_map_subtype_val] at spec

def writePacket : PacketWriter where
  inner := w.inner ++ flatten (w.further serial absgp data)
  pages := Function.update w.pages serial ⟨_, (w.further_spec serial absgp data).1⟩

theorem writePacket_pages : ((w.writePacket serial absgp data).pages serial).val =
    (w.pages serial).val ++ w.further serial absgp data := by
  simp only [writePacket, Function.update_self]

end PacketWriter

instance : LawfulMuxer PacketWriter where
  writePacket w data serial _ absgp := (.ok (), w.writePacket serial absgp data)
  inner w := w.inner
  clearInner w := { w with inner := [] }
  positionPcmToMs _ := 0
  new := ⟨[], fun _ => ⟨[], by simp [Each]⟩⟩
  stream w serial := ⟨(w.pages serial).val, [], 0⟩
  new_inner := rfl
  new_stream _ := ⟨rfl, rfl⟩
  clear_inner _ := rfl
  clear_stream _ _ := rfl
  paged w serial front p back split := ((w.pages serial).property front p back split).toPaged
  succeeds _ _ _ _ _ := rfl
  writes w data serial _ absgp := ⟨w.further serial absgp data, rfl,
    w.writePacket_pages serial absgp data,
    ((w.further_spec serial absgp data).2.1.symm).trans (List.append_nil _).symm, fun _ => rfl⟩
  numbered w serial front p back split := ((w.pages serial).property front p back split).toNumbered
  timed w data serial _ absgp pages split := by
    obtain rfl := List.append_cancel_left
      ((w.writePacket_pages serial absgp data).symm.trans split)
    exact ⟨fun p inside _ => Or.inl ((w.further_spec serial absgp data).2.2 p inside),
      fun held => absurd rfl held⟩

end Paging

end OggWriter
