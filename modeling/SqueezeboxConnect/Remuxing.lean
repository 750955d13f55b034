import SqueezeboxConnect.OggWriter

/-!
# Passthrough keeps every packet

The passthrough decoder reads the three headers when it is constructed. It writes
them in front of the audio packets again and returns the output of the writer as
soon as there is some. The pages it returns are read here as a stream of their own.
A packet is on pages that have been written, or it has ended on the page that is
being filled; a packet that is last on its page ends the page, so nothing is left
behind the last one. The reader and the writer of the `ogg` crate are parameters
with their laws.
-/

namespace Remuxing

open AudioDecoder OggPage OggWriter Demuxing PassthroughDecoder Words

section Packets

/-- The lacing of a packet ends with it. -/
theorem scan_pieces (pending data : Bytes) :
    scan pending (pieces data) = ([pending ++ data], []) := by
  induction data using pieces.induct generalizing pending with
  | case1 data short => rw [pieces, if_pos short, scan, if_pos short, scan]
  | case2 data long ih =>
    have full : ¬ (data.take 255).length < 255 := by
      rw [List.length_take]
      omega
    rw [pieces, if_neg long, scan, if_neg full, ih, List.append_assoc, List.take_append_drop]

theorem scan_full {group : List Bytes} (full : ∀ segment ∈ group, ¬ segment.length < 255)
    (pending : Bytes) : (scan pending group).1 = [] := by
  induction group generalizing pending with
  | nil => rfl
  | cons segment rest ih =>
    obtain ⟨first, others⟩ := List.forall_mem_cons.mp full
    rw [scan, if_neg first]
    exact ih others _

theorem leftOpen_append (front back : List Page) :
    leftOpen (front ++ back) = (scan (leftOpen front) (back.flatMap segments)).2 := by
  rw [leftOpen, List.flatMap_append, scan_append]
  rfl

variable {serial : UInt32} {pages more : List Page} {packets : List (Bytes × Nat)}

/-- Pages in place are read with the packets that end on them. -/
theorem demux_append (paged : Each (Paged serial) (pages ++ more))
    (numbered : Each Numbered (pages ++ more))
    (read : demux serial 0 [] pages = some (packets, leftOpen pages)) {granule : Nat}
    (timed : ∀ p ∈ more, (∃ segment ∈ segments p, segment.length < 255) → p.granule = granule) :
    demux serial 0 [] (pages ++ more) =
      some (packets ++ (scan (leftOpen pages) (more.flatMap segments)).1.map (·, granule),
        leftOpen (pages ++ more)) := by
  induction more generalizing pages packets with
  | nil => simpa [scan] using read
  | cons p rest ih =>
    obtain ⟨here, others⟩ := List.forall_mem_cons.mp timed
    obtain ⟨serial_eq, bos, -⟩ := paged pages p rest rfl
    obtain ⟨number, continued⟩ := numbered pages p rest rfl
    have place : inPlace serial (0 + pages.length) (leftOpen pages) p = true := by
      rw [inPlace, serial_eq, bos, number, continued]
      cases pages <;> simp
    have granules : (scan (leftOpen pages) (segments p)).1.map (·, p.granule) =
        (scan (leftOpen pages) (segments p)).1.map (·, granule) := by
      by_cases ends : ∃ segment ∈ segments p, segment.length < 255
      · rw [here ends]
      · rw [scan_full (fun segment inside short => ends ⟨segment, inside, short⟩)]
        rfl
    have next := demux_concat read place
    have open' : (scan (leftOpen pages) (segments p)).2 = leftOpen (pages ++ [p]) := by
      rw [leftOpen_append, List.flatMap_singleton]
    rw [granules, open'] at next
    rw [← List.singleton_append, ← List.append_assoc] at paged numbered ⊢
    rw [ih paged numbered next others, ← open', List.flatMap_append, List.flatMap_singleton,
      scan_append, List.map_append, List.append_assoc]

/-- All packets so far; those on the page that is being filled will have its granule position. -/
def Holds (serial : UInt32) (st : Stream) (all : List (Bytes × Nat)) : Prop :=
  ∃ packets ended, demux serial 0 [] st.pages = some (packets, leftOpen st.pages) ∧
    scan (leftOpen st.pages) st.segments = (ended, []) ∧
    all = packets ++ ended.map (·, st.granule.toNat)

theorem holds_closed {st : Stream} {all : List (Bytes × Nat)} (holds : Holds serial st all)
    (empty : st.segments = []) : demux serial 0 [] st.pages = some (all, []) := by
  obtain ⟨packets, ended, read, scanned, rfl⟩ := holds
  rw [empty, scan] at scanned
  obtain ⟨rfl, complete⟩ := Prod.mk.inj scanned
  rwa [complete, ← List.append_nil packets] at read

/-- A packet is added, with the granule position of those on the page. -/
theorem holds_wrote {W : Type} [LawfulMuxer W] {w : W} {all : List (Bytes × Nat)}
    (holds : Holds serial (LawfulWriter.stream w serial) all) (data : Bytes)
    (inf : PacketWriteEndInfo) (absgp : UInt64)
    (same : (LawfulWriter.stream w serial).segments = [] ∨
      (LawfulWriter.stream w serial).granule = absgp) :
    Holds serial (LawfulWriter.stream (wrote w data serial inf absgp) serial)
      (all ++ [(data, absgp.toNat)]) := by
  obtain ⟨pages, -, pages_eq, lacing, -⟩ := wrote_spec w data serial inf absgp
  have timed := LawfulMuxer.timed w data serial inf absgp pages pages_eq
  have paged := LawfulWriter.paged (wrote w data serial inf absgp) serial
  have numbered := LawfulMuxer.numbered (wrote w data serial inf absgp) serial
  change Timed _ (LawfulWriter.stream (wrote w data serial inf absgp) serial) _ _ at timed
  generalize LawfulWriter.stream (wrote w data serial inf absgp) serial = after at *
  generalize LawfulWriter.stream w serial = before at *
  obtain ⟨packets, ended, read, scanned, rfl⟩ := holds
  rw [pages_eq] at paged numbered
  have granule : ∀ p ∈ pages, (∃ segment ∈ segments p, segment.length < 255) →
      p.granule = absgp.toNat := by
    intro p inside ends
    rcases timed.page p inside ends with new | ⟨filled, old⟩
    · exact new
    · rw [old, same.resolve_left filled]
  have older : ended.map (·, before.granule.toNat) = ended.map (·, absgp.toNat) := by
    rcases same with empty | same
    · rw [empty, scan] at scanned
      obtain ⟨rfl, -⟩ := Prod.mk.inj scanned
      rfl
    · rw [same]
  have whole : scan (leftOpen before.pages) (before.segments ++ pieces data) =
      (ended ++ [data], []) := by
    rw [scan_append, scanned, scan_pieces, List.nil_append]
  rw [lacing, scan_append] at whole
  obtain ⟨split, nothing⟩ := Prod.mk.inj whole
  have newer : (scan (leftOpen after.pages) after.segments).1.map (·, after.granule.toNat) =
      (scan (leftOpen after.pages) after.segments).1.map (·, absgp.toNat) := by
    by_cases empty : after.segments = []
    · rw [empty]
      rfl
    · rw [timed.left empty]
  rw [← leftOpen_append, ← pages_eq] at split nothing
  have further := demux_append paged numbered read granule
  rw [← pages_eq] at further
  refine ⟨_, _, further, Prod.ext rfl nothing, ?_⟩
  rw [newer, older, List.append_assoc, List.append_assoc, ← List.map_append, split, List.map_append]
  rfl

theorem wrote_granule {W : Type} [LawfulMuxer W] (w : W) (data : Bytes) (serial : UInt32)
    (inf : PacketWriteEndInfo) (absgp : UInt64) :
    (LawfulWriter.stream (wrote w data serial inf absgp) serial).segments = [] ∨
      (LawfulWriter.stream (wrote w data serial inf absgp) serial).granule = absgp := by
  obtain ⟨pages, -, written⟩ := wrote_spec w data serial inf absgp
  by_cases empty : (LawfulWriter.stream (wrote w data serial inf absgp) serial).segments = []
  · exact Or.inl empty
  · exact Or.inr ((LawfulMuxer.timed w data serial inf absgp pages written.pages_eq).left empty)

end Packets

section Construction

inductive AudioFileFormat where
  | oggVorbis96
  | oggVorbis160
  | oggVorbis320
  | mp3256
  | mp3320
  | mp3160
  | mp396
  | mp3160Enc
  | aac24
  | aac48
  | flacFlac
  | xheAac24
  | xheAac16
  | xheAac12
  | flacFlac24bit
  deriving DecidableEq

def isOggVorbis (format : AudioFileFormat) : Bool :=
  format == .oggVorbis320 || format == .oggVorbis160 || format == .oggVorbis96

/-- What the constructor takes from elsewhere: the texts of errors and formats. -/
structure Texts where
  readError : OggReadError → String
  format : AudioFileFormat → String

/-- A packet reader: `results` is what it still has to give. Behind the last packet of a page
there are no unread packets. -/
class LawfulReader (R : Type) where
  readPacketExpected : R → Except OggReadError Packet × R
  deleteUnreadPackets : R → R
  results : R → List (Except OggReadError Packet)
  reads : ∀ rdr result rest, results rdr = result :: rest →
    (readPacketExpected rdr).1 = result ∧ results (readPacketExpected rdr).2 = rest
  fresh : ∀ rdr pck rest, results rdr = .ok pck :: rest → pck.lastInPage = true →
    results (deleteUnreadPackets (readPacketExpected rdr).2) = rest

inductive Failure where
  | error (e : DecoderError)
  /-- The type of an empty packet is looked at. -/
  | panic
  deriving DecidableEq

variable {R : Type} [LawfulReader R]

def getHeader (texts : Texts) (code : UInt8) (rdr : R) : Except Failure (Bytes × R) :=
  match LawfulReader.readPacketExpected rdr with
  | (.error e, _) => .error (.error (.passthroughDecoder (texts.readError e)))
  | (.ok pck, rdr) =>
    match pck.data.head? with
    | none => .error .panic
    | some pktType =>
      if pktType ≠ code then .error (.error (.passthroughDecoder "Invalid Data"))
      else .ok (pck.data, rdr)

/-- The clock gives the milliseconds since the epoch, or an error. -/
def new (W : Type) [LawfulWriter W] (texts : Texts) (rdr : R) (format : AudioFileFormat)
    (sinceEpoch : Except String Nat) : Except Failure (PassthroughDecoder W) :=
  if !isOggVorbis format then
    .error (.error (.passthroughDecoder
      ("Passthrough decoder is not implemented for format " ++ texts.format format)))
  else
    match sinceEpoch with
    | .error e => .error (.error (.passthroughDecoder e))
    | .ok millis => do
      let (ident, rdr) ← getHeader texts 1 rdr
      let (comment, rdr) ← getHeader texts 3 rdr
      let (setup, rdr) ← getHeader texts 5 rdr
      return constructed W (UInt32.ofNat millis) ident comment setup
        (LawfulReader.results (LawfulReader.deleteUnreadPackets rdr))

theorem getHeader_ok (texts : Texts) {code : UInt8} {pck : Packet}
    (header : pck.data.head? = some code) {rdr : R} {rest : List (Except OggReadError Packet)}
    (results : LawfulReader.results rdr = .ok pck :: rest) :
    getHeader texts code rdr = .ok (pck.data, (LawfulReader.readPacketExpected rdr).2) ∧
      LawfulReader.results (LawfulReader.readPacketExpected rdr).2 = rest := by
  obtain ⟨read, later⟩ := LawfulReader.reads rdr _ _ results
  refine ⟨?_, later⟩
  rw [getHeader]
  generalize LawfulReader.readPacketExpected rdr = reply at read
  obtain ⟨result, rdr'⟩ := reply
  subst read
  simp [header]

/-- Three headers in front of audio on a page of its own. -/
theorem new_ok (W : Type) [LawfulWriter W] (texts : Texts) {ident comment setup : Packet}
    (first : ident.data.head? = some 1) (second : comment.data.head? = some 3)
    (third : setup.data.head? = some 5) (fresh : setup.lastInPage = true) {rdr : R}
    {rest : List (Except OggReadError Packet)}
    (results : LawfulReader.results rdr = .ok ident :: .ok comment :: .ok setup :: rest)
    {format : AudioFileFormat} (vorbis : isOggVorbis format = true) (millis : Nat) :
    new W texts rdr format (.ok millis) =
      .ok (constructed W (UInt32.ofNat millis) ident.data comment.data setup.data rest) := by
  obtain ⟨read₁, results₁⟩ := getHeader_ok texts first results
  obtain ⟨read₂, results₂⟩ := getHeader_ok texts second results₁
  obtain ⟨read₃, -⟩ := getHeader_ok texts third results₂
  have left := LawfulReader.fresh _ _ _ results₂ fresh
  simp only [new, vorbis, Bool.not_true, Bool.false_eq_true, if_false, bind, Except.bind, read₁,
    read₂, read₃, left]
  rfl

end Construction

section Draining

variable {W : Type} [LawfulMuxer W]

/-- The calls of `next_packet` up to the one that returns no packet: the bytes of their blocks
and the decoder that is left. -/
inductive Drains : NextPacket × PassthroughDecoder W → Bytes → PassthroughDecoder W → Prop
  | ends {d : PassthroughDecoder W} : Drains (.ok none, d) [] d
  | block {position : AudioPacketPosition} {data out : Bytes} {d d' : PassthroughDecoder W}
      (later : Drains d.nextPacket out d') :
      Drains (.ok (some (position, .raw data)), d) (data ++ out) d'

/-- The packet is the last one on its page, or of its stream. -/
def flagged (pck : Packet) : Bool := pck.lastInPage || pck.lastInStream

theorem endInfo_ne_normal {pck : Packet} (ends : flagged pck = true) :
    endInfo pck ≠ .normalPacket := by
  rw [flagged] at ends
  rw [endInfo]
  cases last : pck.lastInStream <;> simp_all

/-- The reader has come to the end of the input. -/
inductive Ending : List (Except OggReadError Packet) → Prop
  | none : Ending []
  | truncated (rest : List (Except OggReadError Packet)) :
      Ending (.error .noCapturePatternFound :: rest)

/-- The headers have been written, and the decoder is between two packets. -/
structure Ready (serial : UInt32) (d : PassthroughDecoder W) (sent : Bytes)
    (all : List (Bytes × Nat)) : Prop where
  bos_eq : d.bos = true
  serial_eq : d.streamSerial = serial
  offset : d.ofsgpPage = 0
  holds : Holds serial (LawfulWriter.stream d.wtr serial) all
  bytes : sent ++ OggBackend.inner d.wtr = flatten (LawfulWriter.stream d.wtr serial).pages

theorem packetLoop_packet {d : PassthroughDecoder W} (offset : d.ofsgpPage = 0) {pck : Packet}
    (audible : pck.absgpPage ≠ 0) (rest : List (Except OggReadError Packet)) :
    let w := wrote d.wtr pck.data d.streamSerial (endInfo pck) pck.absgpPage
    let d' := { d with eos := d.eos || pck.lastInStream, wtr := w }
    packetLoop (.ok pck :: rest) d =
      if (OggBackend.inner w).isEmpty then packetLoop rest d'
      else (.ok (some (⟨OggBackend.positionPcmToMs W pck.absgpPage, false⟩,
          .raw (OggBackend.inner w))),
        { d' with rdr := rest, wtr := OggBackend.clearInner w }) := by
  have skips : ¬ (pck.absgpPage = 0 ∨ pck.absgpPage = d.ofsgpPage) := by
    rw [offset, or_self]
    exact audible
  have zero : pck.absgpPage - d.ofsgpPage = pck.absgpPage := by rw [offset, UInt64.sub_zero]
  intro w d'
  rw [packetLoop, if_neg skips]
  simp only [zero, writePacket_eq]
  rfl

/-- A packet on its own: the writer has it, and holds no part of a page behind a flagged one. -/
theorem ready_wrote {serial : UInt32} {d : PassthroughDecoder W} {sent : Bytes}
    {all : List (Bytes × Nat)} (ready : Ready serial d sent all) (p : Packet)
    (next : (LawfulWriter.stream d.wtr serial).segments = [] ∨
      (LawfulWriter.stream d.wtr serial).granule = p.absgpPage) :
    let w := wrote d.wtr p.data d.streamSerial (endInfo p) p.absgpPage
    Ready serial { d with eos := d.eos || p.lastInStream, wtr := w } sent
        (all ++ [(p.data, p.absgpPage.toNat)]) ∧
      (flagged p = true → (LawfulWriter.stream w serial).segments = []) ∧
      ((LawfulWriter.stream w serial).segments = [] ∨
        (LawfulWriter.stream w serial).granule = p.absgpPage) := by
  obtain ⟨bos, rfl, offset, holds, bytes⟩ := ready
  intro w
  obtain ⟨pages, inner, pages_eq, -, ends⟩ :=
    wrote_spec d.wtr p.data d.streamSerial (endInfo p) p.absgpPage
  refine ⟨⟨bos, rfl, offset, holds_wrote holds p.data (endInfo p) _ next, ?_⟩, ?_,
    wrote_granule ..⟩
  · show sent ++ OggBackend.inner w = flatten (LawfulWriter.stream w d.streamSerial).pages
    rw [inner, pages_eq, ← List.append_assoc, bytes, flatten_append]
  · exact fun flag => ends (endInfo_ne_normal flag)

/-- The rest of the audio is drained: a packet at a time, and behind the last one the writer
holds nothing any more. -/
theorem packetLoop_drains {serial : UInt32} {ending : List (Except OggReadError Packet)}
    (ends : Ending ending) {audio : List Packet} (audible : ∀ p ∈ audio, p.absgpPage ≠ 0)
    (reader : audio.IsChain fun p q => flagged p = true ∨ q.absgpPage = p.absgpPage)
    (last : ∀ p ∈ audio.getLast?, flagged p = true) {d : PassthroughDecoder W} {sent : Bytes}
    {all : List (Bytes × Nat)} (ready : Ready serial d sent all)
    (next : (LawfulWriter.stream d.wtr serial).segments = [] ∨
      ∀ p ∈ audio.head?, (LawfulWriter.stream d.wtr serial).granule = p.absgpPage)
    (closed : audio = [] → (LawfulWriter.stream d.wtr serial).segments = [] ∧
      OggBackend.inner d.wtr = []) :
    ∃ out d' pages, Drains (packetLoop (audio.map .ok ++ ending) d) out d' ∧
      sent ++ out = flatten pages ∧
      demux serial 0 [] pages =
        some (all ++ audio.map (fun p => (p.data, p.absgpPage.toNat)), []) ∧
      OggBackend.inner d'.wtr = [] ∧ (LawfulWriter.stream d'.wtr serial).segments = [] := by
  induction audio generalizing d sent all with
  | nil =>
    obtain ⟨empty, inner⟩ := closed rfl
    have bytes := ready.bytes
    rw [inner] at bytes
    have read := holds_closed ready.holds empty
    rw [← List.append_nil all] at read
    cases ends with
    | none => exact ⟨[], _, _, .ends, bytes, read, inner, empty⟩
    | truncated rest => exact ⟨[], _, _, .ends, bytes, read, inner, empty⟩
  | cons p rest ih =>
    obtain ⟨here, others⟩ := List.forall_mem_cons.mp audible
    obtain ⟨ready', closing, granule⟩ := ready_wrote ready p (next.imp_right fun same => same p rfl)
    rw [List.map_cons, List.cons_append, packetLoop_packet ready.offset here]
    generalize wrote d.wtr p.data d.streamSerial (endInfo p) p.absgpPage = w
      at ready' closing granule
    have next' : (LawfulWriter.stream w serial).segments = [] ∨
        ∀ q ∈ rest.head?, (LawfulWriter.stream w serial).granule = q.absgpPage := by
      cases rest with
      | nil => exact Or.inl (closing (last p rfl))
      | cons q rest =>
        rcases (List.isChain_cons_cons.mp reader).1 with flag | same
        · exact Or.inl (closing flag)
        · refine granule.imp_right fun here q' first => ?_
          cases first
          rw [here, same]
    have closed' : rest = [] → (LawfulWriter.stream w serial).segments = [] := by
      rintro rfl
      exact closing (last p rfl)
    have last' : ∀ q ∈ rest.getLast?, flagged q = true := by
      intro q final
      cases rest with
      | nil => cases final
      | cons q' rest => exact last q (by rwa [List.getLast?_cons_cons])
    have later {d : PassthroughDecoder W} {sent : Bytes} :=
      @ih others reader.of_cons last' d sent (all ++ [(p.data, p.absgpPage.toNat)])
    rw [List.append_assoc, List.singleton_append] at later
    dsimp only
    split
    · next nothing =>
      exact later ready' next' fun done => ⟨closed' done, List.isEmpty_iff.mp nothing⟩
    · let d' : PassthroughDecoder W := { d with
        eos := d.eos || p.lastInStream, rdr := rest.map .ok ++ ending
        wtr := OggBackend.clearInner w }
      have same := LawfulWriter.clear_stream w serial
      have empty := LawfulWriter.clear_inner w
      have cleared : Ready serial d' (sent ++ OggBackend.inner w)
          (all ++ [(p.data, p.absgpPage.toNat)]) := by
        refine ⟨ready.bos_eq, ready.serial_eq, ready.offset, ?_, ?_⟩
        · show Holds serial (LawfulWriter.stream (OggBackend.clearInner w) serial) _
          rw [same]
          exact ready'.holds
        · show _ ++ OggBackend.inner (OggBackend.clearInner w) =
            flatten (LawfulWriter.stream (OggBackend.clearInner w) serial).pages
          rw [same, empty, List.append_nil]
          exact ready'.bytes
      obtain ⟨out, d'', pages, drains, sent', result⟩ := @later d' (sent ++ OggBackend.inner w)
        cleared (by rwa [← same] at next') fun done => ⟨by rw [same]; exact closed' done, empty⟩
      rw [← nextPacket_begun (d := d') ready.bos_eq] at drains
      refine ⟨OggBackend.inner w ++ out, d'', pages, .block drains, ?_, result⟩
      rw [← List.append_assoc, sent']

/-- The three headers are on pages of their own, with the granule position zero. -/
theorem headed_ready (W : Type) [LawfulMuxer W] (serial : UInt32) (ident comment setup : Bytes)
    (rdr : List (Except OggReadError Packet)) :
    Ready serial { constructed W serial ident comment setup rdr with
        bos := true, wtr := headed W serial ident comment setup } []
      [(ident, 0), (comment, 0), (setup, 0)] := by
  obtain ⟨nothing, empty⟩ := @LawfulWriter.new_stream W _ serial
  have start : Holds serial (LawfulWriter.stream (LawfulWriter.new : W) serial) [] :=
    ⟨[], [], by rw [nothing]; rfl, by rw [nothing, empty]; rfl, rfl⟩
  have first := holds_wrote start ident .endPage 0 (Or.inl empty)
  have second := holds_wrote first comment .normalPacket 0 (wrote_granule ..)
  have third := holds_wrote second setup .endPage 0 (wrote_granule ..)
  obtain ⟨header, pages, inner, -⟩ := headed_pages W serial ident comment setup
  refine ⟨rfl, rfl, rfl, third, ?_⟩
  exact inner.trans (congrArg flatten pages.symm)

/-- A stream of three headers and audio on pages of its own comes out with every packet, and
with the granule positions of its pages. -/
theorem passthrough_keepsPackets (W : Type) [LawfulMuxer W] {R : Type} [LawfulReader R]
    (texts : Texts) {format : AudioFileFormat} (vorbis : isOggVorbis format = true) (millis : Nat)
    {ident comment setup : Packet} (first : ident.data.head? = some 1)
    (second : comment.data.head? = some 3) (third : setup.data.head? = some 5)
    (fresh : setup.lastInPage = true) {audio : List Packet}
    (audible : ∀ p ∈ audio, p.absgpPage ≠ 0)
    (last : ∃ p, audio.getLast? = some p ∧ flagged p = true)
    (reader : audio.IsChain fun p q => flagged p = true ∨ q.absgpPage = p.absgpPage)
    {ending : List (Except OggReadError Packet)} (ends : Ending ending) {rdr : R}
    (results : LawfulReader.results rdr =
      .ok ident :: .ok comment :: .ok setup :: (audio.map .ok ++ ending)) :
    ∃ d out d' pages, new W texts rdr format (.ok millis) = .ok d ∧
      Drains d.nextPacket out d' ∧ readPages out = (pages, .ok ()) ∧
      demux d.streamSerial 0 [] pages = some
        ([(ident.data, 0), (comment.data, 0), (setup.data, 0)] ++
          audio.map (fun p => (p.data, p.absgpPage.toNat)), []) ∧
      OggBackend.inner d'.wtr = [] ∧
      (LawfulWriter.stream d'.wtr d.streamSerial).segments = [] := by
  obtain ⟨p, final, flag⟩ := last
  have audible' : audio ≠ [] := by
    rintro rfl
    cases final
  have made := new_ok W texts first second third fresh results vorbis millis
  have ready := headed_ready W (UInt32.ofNat millis) ident.data comment.data setup.data
    (audio.map .ok ++ ending)
  obtain ⟨-, -, -, -, empty⟩ :=
    headed_pages W (UInt32.ofNat millis) ident.data comment.data setup.data
  obtain ⟨out, d', pages, drains, sent, read, closed⟩ := packetLoop_drains ends audible reader
    (by rw [final]; rintro q ⟨⟩; exact flag) ready (Or.inl empty) fun nothing =>
      absurd nothing audible'
  refine ⟨_, out, d', pages, made, ?_, ?_, read, closed⟩
  · rw [nextPacket_headed]
    exact drains
  · rw [List.nil_append] at sent
    rw [sent, readPages_flatten]

/-- A reader over a list of results; the unread packets are those up to the end of a page. -/
structure PacketReader where
  results : List (Except OggReadError Packet)
  unread : Bool

namespace PacketReader

/-- The results behind the page that is being read. -/
def dropPage : List (Except OggReadError Packet) → List (Except OggReadError Packet)
  | [] => []
  | .error e :: rest => .error e :: rest
  | .ok pck :: rest => if pck.lastInPage then rest else dropPage rest

def read (rdr : PacketReader) : Except OggReadError Packet × PacketReader :=
  match rdr.results with
  | [] => (.error (.other "Expected ogg packet but found end of physical stream"), rdr)
  | .error e :: rest => (.error e, ⟨rest, false⟩)
  | .ok pck :: rest => (.ok pck, ⟨rest, !pck.lastInPage⟩)

end PacketReader

instance : LawfulReader PacketReader where
  readPacketExpected := PacketReader.read
  deleteUnreadPackets rdr :=
    if rdr.unread then ⟨PacketReader.dropPage rdr.results, false⟩ else rdr
  results := PacketReader.results
  reads rdr result rest results := by
    rw [PacketReader.read, results]
    cases result with
    | error e => exact ⟨rfl, rfl⟩
    | ok pck => exact ⟨rfl, rfl⟩
  fresh rdr pck rest results last := by
    rw [PacketReader.read, results]
    simp [last]

/-- A packet over many pages of the output, and one behind it on its page of the input. -/
theorem twoPackets_kept :
    let header := fun code => Packet.mk [code] 0 true false
    let audio := [Packet.mk (List.replicate 70000 0) 1024 false false,
      Packet.mk [7] 1024 true false]
    let rdr : PacketReader :=
      ⟨.ok (header 1) :: .ok (header 3) :: .ok (header 5) :: (audio.map .ok ++ []), false⟩
    ∃ d out d' pages,
      new PacketWriter ⟨fun _ => "", fun _ => ""⟩ rdr .oggVorbis160 (.ok 7) = .ok d ∧
      Drains d.nextPacket out d' ∧ readPages out = (pages, .ok ()) ∧
      demux d.streamSerial 0 [] pages = some
        ([([1], 0), ([3], 0), ([5], 0)] ++ audio.map (fun p => (p.data, p.absgpPage.toNat)), []) ∧
      d'.wtr.inner = [] ∧ (LawfulWriter.stream d'.wtr d.streamSerial).segments = [] := by
  intro header audio rdr
  have audible : ∀ p ∈ audio, p.absgpPage ≠ 0 :=
    List.forall_mem_cons.mpr ⟨by decide, List.forall_mem_cons.mpr ⟨by decide, by simp⟩⟩
  have reader : audio.IsChain fun p q => flagged p = true ∨ q.absgpPage = p.absgpPage :=
    List.isChain_cons_cons.mpr ⟨Or.inr rfl, .singleton _⟩
  exact @passthrough_keepsPackets PacketWriter _ PacketReader _ _ .oggVorbis160 rfl 7 (header 1)
    (header 3) (header 5) rfl rfl rfl rfl audio audible ⟨_, rfl, rfl⟩ reader [] .none rdr rfl

end Draining

end Remuxing
