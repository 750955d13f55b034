import SqueezeboxConnect.OggWriter
import SqueezeboxConnect.HeaderTracker

/-!
# The producer's pages at the bridge

The passthrough decoder ends a page behind the identification header and behind
the setup header, and never elsewhere among the headers. The bridge reads the
lacing values of these pages one by one, with the first sixteen bytes of every
packet. Both see the same three packets, and the header pages end with the
third, whatever the lengths of the packets are.
-/

namespace Framing

open Outcomes OggPage HeaderTracker AudioDecoder OggWriter Demuxing Words

/-- One lacing value with the bytes it stands for. -/
def observeSegment (h : Headers) (segment : Bytes) : Except HeaderError Headers :=
  if h.packets = 3 then .error .audioOnSetupPage
  else
    let h := { h with packetPrefix := h.packetPrefix ++ segment.take (16 - h.packetPrefix.length) }
    if segment.length < 255 then h.endPacket else .ok h

variable {group : List Bytes} {h h' : Headers} {serial : UInt32} {pages header : List Page}

section Segments

/-- The bridge reads a body as it is cut by the lacing values. -/
theorem observeSegments_cut {lacing body : Bytes}
    (fits : (lacing.map UInt8.toNat).sum ≤ body.length)
    (h : Headers) : Headers.observeSegments lacing body h =
      (cut lacing body).foldlM observeSegment h := by
  induction lacing generalizing body h with
  | nil => rfl
  | cons n rest ih =>
    rw [List.map_cons, List.sum_cons] at fits
    have later := @ih (body.drop n.toNat) (by rw [List.length_drop]; omega)
    have size : (body.take n.toNat).length = n.toNat := by
      rw [List.length_take]
      omega
    have front : body.take (min (16 - h.packetPrefix.length) n.toNat) =
        (body.take n.toNat).take (16 - h.packetPrefix.length) := by
      rw [List.take_take]
    simp only [Headers.observeSegments, cut, List.foldlM_cons, observeSegment, size, front, later]
    split
    · rfl
    · split
      · rfl
      · rfl

theorem observeSegments_page (p : Page) (h : Headers) :
    Headers.observeSegments p.segments p.body h = (segments p).foldlM observeSegment h := by
  refine observeSegments_cut ?_ h
  have size := p.size
  rw [pageLength, bodyLength] at size
  rw [Page.segments, Page.body, List.length_drop]
  omega

theorem endPacket_bytes (done : h.endPacket = .ok h') (bytes : Bytes) :
    { h with bytes := bytes }.endPacket = .ok { h' with bytes := bytes } := by
  simp only [Headers.endPacket, Headers.signed] at done ⊢
  split at done
  · cases done
  · rename_i signed
    rw [if_neg signed]
    split at done
    · rename_i first
      rw [if_pos first]
      split at done
      · cases done
      · rename_i long
        rw [if_neg long]
        split at done
        · cases done
        · rename_i valid
          rw [if_neg valid]
          cases done
          rfl
    · rename_i later
      rw [if_neg later]
      cases done
      rfl

theorem observeSegment_ok {segment : Bytes} (done : observeSegment h segment = .ok h') :
    h.packets ≠ 3 ∧ h'.serial = h.serial ∧ h'.bytes = h.bytes ∧
      ∀ bytes, observeSegment { h with bytes := bytes } segment =
        .ok { h' with bytes := bytes } := by
  simp only [observeSegment] at done ⊢
  split at done
  · cases done
  · rename_i few
    refine ⟨few, ?_⟩
    split at done
    · rename_i ends
      have counted := endPacket_counted (by exact few) done
      refine ⟨counted.serial_eq, counted.bytes_eq, ?_⟩
      intro bytes
      rw [if_neg few, if_pos ends]
      exact endPacket_bytes done bytes
    · rename_i continues
      cases done
      refine ⟨rfl, rfl, ?_⟩
      intro bytes
      rw [if_neg few, if_neg continues]

/-- The cache is not looked at while the segments of a page are read. -/
theorem observed_bytes (done : group.foldlM observeSegment h = .ok h') :
    h'.serial = h.serial ∧ h'.bytes = h.bytes ∧
      ∀ bytes, group.foldlM observeSegment { h with bytes := bytes } =
        .ok { h' with bytes := bytes } := by
  induction group generalizing h with
  | nil =>
    cases done
    exact ⟨rfl, rfl, fun bytes => rfl⟩
  | cons segment rest ih =>
    obtain ⟨h₁, first, later⟩ := ok_of_bind done
    obtain ⟨-, serial, bytes, cached⟩ := observeSegment_ok first
    obtain ⟨serial', bytes', cached'⟩ := ih later
    refine ⟨serial'.trans serial, bytes'.trans bytes, ?_⟩
    intro bytes
    rw [List.foldlM_cons, cached bytes]
    exact cached' bytes

end Segments

section Packets

/-- A packet with the type and the signature of a Vorbis header. -/
def Signed (code : UInt8) (data : Bytes) : Prop :=
  data.take 7 = [code, 0x76, 0x6F, 0x72, 0x62, 0x69, 0x73]

/-- An identification header with a sample rate that the bridge can use. -/
structure Identification (data : Bytes) : Prop where
  signed : Signed 1 data
  long : 16 ≤ data.length
  positive : 1 ≤ fromLeBytes ((data.drop 12).take 4)
  bounded : fromLeBytes ((data.drop 12).take 4) ≤ 192000

/-- Over all its segments the bridge collects the front of the packet. -/
theorem packet_observed (data : Bytes) (few : h.packets ≠ 3) (bound : h.packetPrefix.length ≤ 16) :
    (pieces data).foldlM observeSegment h =
      { h with packetPrefix := (h.packetPrefix ++ data).take 16 }.endPacket := by
  induction data using pieces.induct generalizing h with
  | case1 data short =>
    have front : (h.packetPrefix ++ data).take 16 =
        h.packetPrefix ++ data.take (16 - h.packetPrefix.length) := by
      rw [List.take_append, List.take_of_length_le bound]
    rw [pieces, if_pos short, List.foldlM_cons, observeSegment, if_neg few, if_pos short, front]
    simp only [List.foldlM_nil]
    exact bind_pure _
  | case2 data long ih =>
    have size : (data.take 255).length = 255 := by
      rw [List.length_take]
      omega
    have same : (data.take 255).take (16 - h.packetPrefix.length) =
        data.take (16 - h.packetPrefix.length) := by
      rw [List.take_take]
      congr 1
      omega
    have full : (h.packetPrefix ++ data.take (16 - h.packetPrefix.length)).length = 16 := by
      rw [List.length_append, List.length_take]
      omega
    have front : (h.packetPrefix ++ data).take 16 =
        (h.packetPrefix ++ data.take (16 - h.packetPrefix.length) ++ data.drop 255).take 16 := by
      rw [List.take_append, List.take_of_length_le bound,
        List.take_append_of_le_length (Nat.le_of_eq full.symm),
        List.take_of_length_le (Nat.le_of_eq full)]
    rw [pieces, if_neg long, List.foldlM_cons, observeSegment, if_neg few, if_neg (by omega), same,
      front]
    exact ih few (by simp only [full]; omega)

variable {data : Bytes}

theorem signed_of_front {code : UInt8} (signed : Signed code data)
    (expected : Headers.expected h.packets = code) (front : h.packetPrefix = data.take 16) :
    h.signed = true := by
  have seven : h.packetPrefix.take 7 = [code, 0x76, 0x6F, 0x72, 0x62, 0x69, 0x73] := by
    rw [front, List.take_take]
    exact signed
  have long : 7 ≤ h.packetPrefix.length := by
    have length := congrArg List.length seven
    rw [List.length_take] at length
    simp only [List.length_cons, List.length_nil] at length
    omega
  have type : h.packetPrefix.getD 0 0 = code := by
    have first := congrArg (fun bytes => bytes.getD 0 0) seven
    simpa [List.getD_eq_getElem?_getD, List.getElem?_take_of_lt] using first
  have name : (h.packetPrefix.drop 1).take 6 = [0x76, 0x6F, 0x72, 0x62, 0x69, 0x73] := by
    have tail := congrArg (List.drop 1) seven
    rwa [List.drop_take] at tail
  simp only [Headers.signed, type, name, expected, long]
  simp

theorem identification_observed (identification : Identification data) (first : h.packets = 0)
    (begun : h.packetPrefix = []) :
    (pieces data).foldlM observeSegment h = .ok { h with
      rate := fromLeBytes ((data.drop 12).take 4), packets := 1, packetPrefix := [] } := by
  obtain ⟨signed, long, positive, bounded⟩ := identification
  obtain ⟨serial, bytes, packets, packetPrefix, rate₀⟩ := h
  subst first
  subst begun
  rw [packet_observed data (by simp) (by simp), List.nil_append]
  have accepted : Headers.signed ⟨serial, bytes, 0, data.take 16, rate₀⟩ = true :=
    signed_of_front signed rfl rfl
  have rate : ((data.take 16).drop 12).take 4 = (data.drop 12).take 4 := by
    rw [List.drop_take, List.take_take]
    rfl
  have length : ¬ (data.take 16).length < 16 := by
    rw [List.length_take]
    omega
  simp only [Headers.endPacket, accepted, rate, if_neg length, Headers.countPacket]
  rw [if_neg (by simp), if_pos trivial, if_neg (by omega)]

theorem signed_observed {code : UInt8} (signed : Signed code data)
    (expected : Headers.expected h.packets = code) (later : h.packets ≠ 0) (few : h.packets ≠ 3)
    (begun : h.packetPrefix = []) :
    (pieces data).foldlM observeSegment h =
      .ok { h with packets := h.packets + 1, packetPrefix := [] } := by
  rw [packet_observed data few (by simp [begun]), begun, List.nil_append]
  have accepted : Headers.signed { h with packetPrefix := data.take 16 } = true :=
    signed_of_front signed expected rfl
  simp only [Headers.endPacket, accepted, if_neg later, Headers.countPacket]
  rw [if_neg (by simp)]

/-- What the bridge knows when the three headers have been read. -/
def complete (serial : UInt32) (ident : Bytes) : Headers :=
  { serial := some serial.toNat, bytes := [], packets := 3, packetPrefix := []
    rate := fromLeBytes ((ident.drop 12).take 4) }

theorem headers_observed {ident comment setup : Bytes} (identification : Identification ident)
    (commentary : Signed 3 comment) (codebooks : Signed 5 setup) (serial : UInt32) :
    (pieces ident ++ pieces comment ++ pieces setup).foldlM observeSegment
      { Headers.new with serial := some serial.toNat } = .ok (complete serial ident) := by
  rw [List.foldlM_append, List.foldlM_append, identification_observed identification rfl rfl]
  let rate := fromLeBytes ((ident.drop 12).take 4)
  have second : (pieces comment).foldlM observeSegment ⟨some serial.toNat, [], 1, [], rate⟩ =
      .ok ⟨some serial.toNat, [], 2, [], rate⟩ :=
    signed_observed commentary rfl (by simp) (by simp) rfl
  have third : (pieces setup).foldlM observeSegment ⟨some serial.toNat, [], 2, [], rate⟩ =
      .ok (complete serial ident) :=
    signed_observed codebooks rfl (by simp) (by simp) rfl
  have both := congrArg (fun result => result.bind fun h =>
    (pieces setup).foldlM observeSegment h) second
  exact both.trans third

end Packets

section Pages

/-- A page whose segments are read without an error is added to the cache. -/
theorem cache_page {p : Page} (filled : segments p ≠ [])
    (done : (segments p).foldlM observeSegment h = .ok h')
    (small : h.bytes.length + p.bytes.length ≤ MAX_HEADERS) :
    h.cache p = .ok { h' with bytes := h.bytes ++ p.bytes } := by
  have few : h.packets ≠ 3 := by
    generalize segments p = group at filled done
    cases group with
    | nil => exact absurd rfl filled
    | cons segment rest =>
      obtain ⟨h₁, first, -⟩ := ok_of_bind done
      exact (observeSegment_ok first).1
  have bytes := (observed_bytes done).2.1
  rw [Headers.cache, if_neg few, if_neg (by omega), observeSegments_page, done, ← bytes]
  rfl

/-- A page of the stream that does not begin it. -/
structure Further (serial : UInt32) (p : Page) : Prop where
  serial_eq : p.serial = serial.toNat
  bos_eq : p.isBos = false
  filled : segments p ≠ []

theorem further_of_paged {front back : List Page} (paged : Each (Paged serial) (front ++ back))
    (begun : front ≠ []) : ∀ p ∈ back, Further serial p := by
  intro p inside
  obtain ⟨before, after, rfl⟩ := List.append_of_mem inside
  obtain ⟨serial_eq, bos, filled⟩ := paged (front ++ before) p after (by rw [List.append_assoc])
  exact ⟨serial_eq, bos.trans (List.isEmpty_eq_false_iff.mpr (by simp [begun])), filled⟩

theorem observe_further {p : Page} (further : Further serial p)
    (known : h.serial = some serial.toNat) : h.observe p = h.cache p := by
  have same : h.started p = h := if_neg (by simp [further.bos_eq])
  simp [Headers.observe, same, known, further.serial_eq]

theorem observe_first (h : Headers) {p : Page} (bos : p.isBos = true) :
    h.observe p = Headers.cache { Headers.new with serial := some p.serial } p := by
  have fresh : h.started p = { Headers.new with serial := some p.serial } := if_pos bos
  simp [Headers.observe, fresh]

/-- Further pages whose segments are read without an error are all added to the cache. -/
theorem pages_observed (further : ∀ p ∈ pages, Further serial p)
    (known : h.serial = some serial.toNat)
    (done : (pages.flatMap segments).foldlM observeSegment h = .ok h')
    (small : h.bytes.length + (flatten pages).length ≤ MAX_HEADERS) :
    pages.foldlM Headers.observe h = .ok { h' with bytes := h.bytes ++ flatten pages } := by
  induction pages generalizing h h' with
  | nil =>
    cases done
    simp [pure, Except.pure]
  | cons p pages ih =>
    obtain ⟨here, others⟩ := List.forall_mem_cons.mp further
    rw [List.flatMap_cons, List.foldlM_append] at done
    obtain ⟨h₁, first, later⟩ := ok_of_bind done
    have serial₁ := (observed_bytes first).1
    have size : (flatten (p :: pages)).length = p.bytes.length + (flatten pages).length := by
      simp [flatten]
    have cached := cache_page here.filled first (by omega)
    have later' := (observed_bytes later).2.2 (h.bytes ++ p.bytes)
    have rest := ih (h := { h₁ with bytes := h.bytes ++ p.bytes }) others (serial₁.trans known)
      later' (by simp only [List.length_append]; omega)
    rw [List.foldlM_cons, observe_further here known, cached]
    refine rest.trans ?_
    simp [flatten]

theorem header_observed (paged : Each (Paged serial) header) (written : header ≠ [])
    (done : (header.flatMap segments).foldlM observeSegment
      { Headers.new with serial := some serial.toNat } = .ok h')
    (small : (flatten header).length ≤ MAX_HEADERS) (h : Headers) :
    header.foldlM Headers.observe h = .ok { h' with bytes := flatten header } := by
  obtain ⟨p, pages, rfl⟩ := List.exists_cons_of_ne_nil written
  obtain ⟨serial_eq, bos, filled⟩ := paged [] p pages rfl
  rw [List.flatMap_cons, List.foldlM_append] at done
  obtain ⟨h₁, first, later⟩ := ok_of_bind done
  have size : (flatten (p :: pages)).length = p.bytes.length + (flatten pages).length := by
    simp [flatten]
  have cached := cache_page filled first (by simp only [Headers.new, List.length_nil]; omega)
  have rest := pages_observed (h := { h₁ with bytes := p.bytes })
    (@further_of_paged serial [p] pages paged (by simp)) (observed_bytes first).1
    ((observed_bytes later).2.2 p.bytes) (by dsimp only; omega)
  rw [List.foldlM_cons, observe_first h bos, serial_eq, cached]
  refine rest.trans ?_
  simp [flatten]

theorem audio_observed {audio : List Page}
    (further : ∀ p ∈ audio, Further serial p)
    (known : h.serial = some serial.toNat) (full : h.packets = 3) :
    audio.foldlM Headers.observe h = .ok h := by
  induction audio with
  | nil => rfl
  | cons p rest ih =>
    obtain ⟨here, others⟩ := List.forall_mem_cons.mp further
    rw [List.foldlM_cons, observe_further here known, Headers.cache, if_pos full]
    exact ih others

theorem follows_pages {front : List Page} (follows : Follows front h)
    (inside : ∀ p ∈ pages, p.isBos = false) (done : pages.foldlM Headers.observe h = .ok h') :
    Follows (front ++ pages) h' := by
  induction pages generalizing front h with
  | nil =>
    cases done
    rwa [List.append_nil]
  | cons p rest ih =>
    obtain ⟨h₁, first, later⟩ := ok_of_bind done
    have next := (observe_next follows (inside p (by simp)) first).2
    have all := ih next (fun q member => inside q (by simp [member])) later
    rwa [List.append_assoc, List.singleton_append] at all

theorem follows_header (paged : Each (Paged serial) pages) (written : pages ≠ [])
    (done : pages.foldlM Headers.observe h = .ok h') : Follows pages h' := by
  obtain ⟨p, rest, rfl⟩ := List.exists_cons_of_ne_nil written
  obtain ⟨h₁, first, later⟩ := ok_of_bind done
  refine follows_pages (observe_bos (paged [] p rest rfl).bos_eq first) ?_ later
  exact fun q inside => (@further_of_paged serial [p] rest paged (by simp) q inside).bos_eq

theorem headerPages_cached {stream : List Page} (follows : Follows stream h)
    (bytes : h.bytes = flatten stream) : headerPages stream = stream := by
  have split := header_append_audio stream
  have nothing : flatten (audioPages stream) = [] := by
    have whole := congrArg flatten split
    rw [flatten_append, ← follows.bytes_eq, bytes] at whole
    exact List.append_right_eq_self.mp whole
  cases audio : audioPages stream with
  | nil => rwa [audio, List.append_nil] at split
  | cons p rest =>
    have size := p.nonempty
    rw [audio] at nothing
    have empty : p.bytes = [] := (List.append_eq_nil_iff.mp nothing).1
    rw [empty] at size
    cases size

end Pages

section Producer

variable {W : Type} [LawfulWriter W] {d : PassthroughDecoder W}

def headerBytes (W : Type) [LawfulWriter W] (serial : UInt32) (ident comment setup : Bytes) :
    Bytes :=
  OggBackend.inner (constructed W serial ident comment setup []).writeHeaders.2.wtr

/-- The bytes that a call of `next_packet` returns. -/
def handed : NextPacket → Bytes
  | .ok (some (_, .raw data)) => data
  | _ => []

/-- The bytes that a number of calls return. -/
def emitted : Nat → PassthroughDecoder W → Bytes
  | 0, _ => []
  | calls + 1, d => handed d.nextPacket.1 ++ emitted calls d.nextPacket.2

/-- The headers are written; the pages that were sent and those that are held in the output of
the packet writer are the stream. -/
structure Streaming (serial : UInt32) (header sent : List Page) (d : PassthroughDecoder W) :
    Prop where
  bos_eq : d.bos = true
  serial_eq : d.streamSerial = serial
  begins : header <+: (LawfulWriter.stream d.wtr serial).pages
  held : ∃ held, OggBackend.inner d.wtr = flatten held ∧
    (LawfulWriter.stream d.wtr serial).pages = sent ++ held
  sent_eq : sent = [] ∨ header <+: sent

variable {sent : List Page}

theorem wrote_streaming (streaming : Streaming serial header sent d) (data : Bytes)
    (info : PacketWriteEndInfo) (absgp : UInt64) :
    Streaming serial header sent
      { d with wtr := wrote d.wtr data d.streamSerial info absgp } := by
  obtain ⟨bos, rfl, begins, ⟨held, inner, split⟩, old⟩ := streaming
  obtain ⟨pages, inner', written⟩ := wrote_spec d.wtr data d.streamSerial info absgp
  refine ⟨bos, rfl, ?_, ⟨held ++ pages, ?_, ?_⟩, old⟩
  · rw [written.pages_eq]
    exact begins.trans (List.prefix_append _ _)
  · rw [inner', inner, flatten_append]
  · rw [written.pages_eq, split, List.append_assoc]

theorem clearInner_streaming (streaming : Streaming serial header sent d)
    (rdr : List (Except OggReadError Packet)) :
    ∃ held, OggBackend.inner d.wtr = flatten held ∧ Streaming serial header (sent ++ held)
      { d with rdr := rdr, wtr := OggBackend.clearInner d.wtr } := by
  obtain ⟨bos, serial_eq, begins, ⟨held, inner, split⟩, -⟩ := streaming
  have same := LawfulWriter.clear_stream d.wtr serial
  refine ⟨held, inner, bos, serial_eq, ?_, ⟨[], LawfulWriter.clear_inner d.wtr, ?_⟩, ?_⟩
  · rwa [same]
  · rw [same, split, List.append_nil]
  · rw [← split]
    exact .inr begins

theorem packetLoop_streaming (rdr : List (Except OggReadError Packet))
    (streaming : Streaming serial header sent d) :
    ∃ held, handed (PassthroughDecoder.packetLoop rdr d).1 = flatten held ∧
      Streaming serial header (sent ++ held) (PassthroughDecoder.packetLoop rdr d).2 := by
  -- nothing is handed over and only the reader has changed
  have idle (rest : List (Except OggReadError Packet)) {d : PassthroughDecoder W}
      (streaming : Streaming serial header sent d) :
      Streaming serial header (sent ++ []) { d with rdr := rest } := by
    rw [List.append_nil]
    exact ⟨streaming.bos_eq, streaming.serial_eq, streaming.begins, streaming.held,
      streaming.sent_eq⟩
  induction rdr generalizing d with
  | nil => exact ⟨[], rfl, idle [] streaming⟩
  | cons result rest ih =>
    cases result with
    | error e =>
      cases e with
      | noCapturePatternFound => exact ⟨[], rfl, idle rest streaming⟩
      | other message => exact ⟨[], rfl, idle rest streaming⟩
    | ok pck =>
      rw [PassthroughDecoder.packetLoop]
      split
      · exact ih streaming
      · have marked : Streaming serial header sent { d with eos := d.eos || pck.lastInStream } :=
          ⟨streaming.bos_eq, streaming.serial_eq, streaming.begins, streaming.held,
            streaming.sent_eq⟩
        have further := wrote_streaming marked pck.data (PassthroughDecoder.endInfo pck)
          (pck.absgpPage - d.ofsgpPage)
        simp only [writePacket_eq]
        split
        · exact ih further
        · exact clearInner_streaming further rest

theorem emitted_streaming (calls : Nat) (streaming : Streaming serial header sent d) :
    ∃ more, emitted calls d = flatten more ∧
      ∃ d' : PassthroughDecoder W, Streaming serial header (sent ++ more) d' := by
  induction calls generalizing sent d with
  | zero => exact ⟨[], rfl, d, by rwa [List.append_nil]⟩
  | succ calls ih =>
    obtain ⟨held, first, next⟩ := packetLoop_streaming d.rdr streaming
    obtain ⟨more, later, d', whole⟩ := ih next
    refine ⟨held ++ more, ?_, d', by rwa [← List.append_assoc]⟩
    rw [emitted, nextPacket_begun streaming.bos_eq, first, later, flatten_append]

theorem emitted_headed (W : Type) [LawfulWriter W] (serial : UInt32) (ident comment setup : Bytes)
    (rdr : List (Except OggReadError Packet)) (calls : Nat) :
    emitted calls (constructed W serial ident comment setup rdr) =
      emitted calls { constructed W serial ident comment setup rdr with
        bos := true, wtr := headed W serial ident comment setup } := by
  cases calls with
  | zero => rfl
  | succ calls =>
    rw [emitted, emitted, nextPacket_headed, nextPacket_begun rfl]
    rfl

/-- The bridge takes what the producer emits: the pages are read back and observed without an
error, the header pages are those of the three headers, and these are what it keeps. -/
theorem framing_agrees (W : Type) [LawfulWriter W] (serial : UInt32) {ident comment setup : Bytes}
    (identification : Identification ident) (commentary : Signed 3 comment)
    (codebooks : Signed 5 setup)
    (small : (headerBytes W serial ident comment setup).length ≤ MAX_HEADERS)
    (rdr : List (Except OggReadError Packet)) (calls : Nat) (before : Headers) :
    ∃ header h, flatten header = headerBytes W serial ident comment setup ∧
      headerPackets header = 3 ∧ header.foldlM Headers.observe before = .ok h ∧
      h.packets = 3 ∧ h.bytes = flatten header ∧
      (emitted calls (constructed W serial ident comment setup rdr) = [] ∨
        ∃ audio, readPages (emitted calls (constructed W serial ident comment setup rdr)) =
            (header ++ audio, .ok ()) ∧
          headerPages (header ++ audio) = header ∧
          (header ++ audio).foldlM Headers.observe before = .ok h) := by
  obtain ⟨header, pages, inner, laced, -⟩ := headed_pages W serial ident comment setup
  have bytes : flatten header = headerBytes W serial ident comment setup := by
    rw [headerBytes, writeHeaders_eq]
    exact inner.symm
  have paged := LawfulWriter.paged (headed W serial ident comment setup) serial
  rw [pages] at paged
  have written : header ≠ [] := by
    rintro rfl
    simp [pieces_ne_nil] at laced
  have observed := header_observed paged written
    (by rw [laced]; exact headers_observed identification commentary codebooks serial)
    (by rwa [bytes]) before
  have follows := follows_header paged written observed
  have three : headerPackets header = 3 := follows.packets_eq.symm
  refine ⟨header, _, bytes, three, observed, rfl, rfl, ?_⟩
  have begun : Streaming serial header [] { constructed W serial ident comment setup rdr with
      bos := true, wtr := headed W serial ident comment setup } :=
    ⟨rfl, rfl, pages ▸ List.prefix_rfl, ⟨header, inner, pages⟩, .inl rfl⟩
  obtain ⟨sent, flat, d, streaming⟩ := emitted_streaming calls begun
  rw [emitted_headed, flat]
  rcases streaming.sent_eq with nothing | ⟨audio, split⟩
  · left
    rw [List.nil_append] at nothing
    rw [nothing]
    rfl
  · right
    rw [List.nil_append] at split
    obtain ⟨held, -, whole⟩ := streaming.held
    have stream := LawfulWriter.paged d.wtr serial
    rw [whole, List.nil_append, ← split, List.append_assoc] at stream
    have further := further_of_paged stream written
    refine ⟨audio, by rw [split, readPages_flatten], ?_, ?_⟩
    · rw [headerPages_complete (Nat.le_of_eq three.symm), headerPages_cached follows rfl]
    · rw [List.foldlM_append, observed]
      exact audio_observed (fun p inside => further p (List.mem_append_left held inside)) rfl rfl

/-- A track with 44100 samples a second; the last segment of its comment is empty. -/
def sample : PassthroughDecoder PacketWriter :=
  constructed _ 7 [1, 0x76, 0x6F, 0x72, 0x62, 0x69, 0x73, 0, 0, 0, 0, 2, 0x44, 0xAC, 0, 0]
    ([3, 0x76, 0x6F, 0x72, 0x62, 0x69, 0x73] ++ List.replicate 248 0)
    [5, 0x76, 0x6F, 0x72, 0x62, 0x69, 0x73] [.ok ⟨[0xAA], 1024, true, false⟩]

theorem sample_agrees : ∃ header audio h, readPages (emitted 1 sample) = (header ++ audio, .ok ()) ∧
    headerPages (header ++ audio) = header ∧
    (header ++ audio).foldlM Headers.observe Headers.new = .ok h ∧ h.packets = 3 ∧
    h.bytes = flatten header := by
  have identification : Identification sample.ident := ⟨rfl, by decide, by decide, by decide⟩
  have commentary : Signed 3 sample.comment := rfl
  have codebooks : Signed 5 sample.setup := rfl
  obtain ⟨header, h, -, -, -, full, cached, nothing | ⟨audio, read, split, accepted⟩⟩ :=
    framing_agrees PacketWriter 7 identification commentary codebooks
      (by decide +kernel) sample.rdr 1 Headers.new
  · exact absurd nothing (by decide +kernel)
  · exact ⟨header, audio, h, read, split, accepted, full, cached⟩

end Producer

end Framing
