import Mathlib.Algebra.Ring.Nat
import Mathlib.Data.List.Basic
import SqueezeboxConnect.Streams

/-!
# Ogg pages

A page is read from the producer as 27 header bytes, the lacing values the
last of them counts, and the body the lacing values add up to. The structure
holds the bytes of a page as the reader accepts them. A logical stream begins
with a page that has the BOS flag; its header pages are those with the first
three packets.
-/

namespace OggPage

open Streams

variable (bytes : List UInt8)

def segmentCount : Nat := (bytes.getD 26 0).toNat

def lacing : List UInt8 := (bytes.drop 27).take (segmentCount bytes)

def bodyLength : Nat := ((lacing bytes).map UInt8.toNat).sum

def pageLength : Nat := 27 + segmentCount bytes + bodyLength bytes

/-- `OggS` and version 0. -/
def captured : Bool :=
  bytes.take 4 == [0x4F, 0x67, 0x67, 0x53] && bytes.getD 4 1 == 0

structure Page where
  bytes : List UInt8
  capture : captured bytes = true
  size : bytes.length = pageLength bytes
  deriving DecidableEq

inductive ReadError where
  | unexpectedEof
  | invalidCapture
  deriving DecidableEq, Repr

variable {n : Nat}

/-- What is read depends on the first bytes only. -/
theorem take_capture {bytes : List UInt8} (long : 27 ≤ n) :
    captured (bytes.take n) = captured bytes := by
  have four : min 4 n = 4 := by omega
  simp only [captured, List.take_take, four, List.getD_eq_getElem?_getD,
    List.getElem?_take_of_lt (show 4 < n by omega)]

theorem take_segmentCount {bytes : List UInt8} (long : 27 ≤ n) :
    segmentCount (bytes.take n) = segmentCount bytes := by
  simp only [segmentCount, List.getD_eq_getElem?_getD,
    List.getElem?_take_of_lt (show 26 < n by omega)]

theorem take_pageLength {bytes : List UInt8} (long : 27 + segmentCount bytes ≤ n) :
    pageLength (bytes.take n) = pageLength bytes := by
  have same : lacing (bytes.take n) = lacing bytes := by
    have inside : min (segmentCount bytes) (n - 27) = segmentCount bytes := by omega
    rw [lacing, take_segmentCount (by omega), List.drop_take, List.take_take, inside, lacing]
  rw [pageLength, pageLength, bodyLength, bodyLength, same, take_segmentCount (by omega)]

/-- One page off the front of the input; `none` at its end. -/
def page (input : List UInt8) : Except ReadError (Option (Page × List UInt8)) :=
  if input.isEmpty then .ok none
  else if input.length < 27 then .error .unexpectedEof
  else if capture : captured input = true then
    if input.length < 27 + segmentCount input then .error .unexpectedEof
    else if short : input.length < pageLength input then .error .unexpectedEof
    else
      let n := pageLength input
      have long : 27 + segmentCount input ≤ n := by simp only [n, pageLength]; omega
      .ok (some (⟨input.take n, by rw [take_capture (by omega)]; exact capture,
        by rw [take_pageLength long, List.length_take]; omega⟩, input.drop n))
  else .error .invalidCapture

variable (p : Page)

theorem Page.length_pos : 27 ≤ p.bytes.length := by
  rw [p.size, pageLength]
  omega

theorem Page.nonempty : 0 < p.bytes.length :=
  Nat.lt_of_lt_of_le (by decide) p.length_pos

theorem segmentCount_append (rest : List UInt8) :
    segmentCount (p.bytes ++ rest) = segmentCount p.bytes := by
  have long := p.length_pos
  have whole : (p.bytes ++ rest).take p.bytes.length = p.bytes := by simp
  have kept : segmentCount ((p.bytes ++ rest).take p.bytes.length) =
      segmentCount (p.bytes ++ rest) := take_segmentCount long
  rw [← kept, whole]

theorem pageLength_append (rest : List UInt8) : pageLength (p.bytes ++ rest) = p.bytes.length := by
  have whole : (p.bytes ++ rest).take p.bytes.length = p.bytes := by simp
  have long : 27 + segmentCount (p.bytes ++ rest) ≤ p.bytes.length := by
    rw [segmentCount_append, p.size, pageLength]
    omega
  rw [← take_pageLength long, whole, p.size]

theorem page_append (rest : List UInt8) : page (p.bytes ++ rest) = .ok (some (p, rest)) := by
  have long := p.length_pos
  have whole : (p.bytes ++ rest).take p.bytes.length = p.bytes := by simp
  have capture : captured (p.bytes ++ rest) = true := by
    have kept : captured ((p.bytes ++ rest).take p.bytes.length) = captured (p.bytes ++ rest) :=
      take_capture long
    rw [← kept, whole]
    exact p.capture
  have nonempty : (p.bytes ++ rest).isEmpty = false := by
    cases h : p.bytes with
    | nil => rw [h] at long; simp at long
    | cons b bs => rfl
  have count : 27 + segmentCount (p.bytes ++ rest) ≤ p.bytes.length := by
    rw [segmentCount_append, p.size, pageLength]
    omega
  have length : (p.bytes ++ rest).length = p.bytes.length + rest.length := List.length_append
  unfold page
  rw [if_neg (by simp [nonempty]), if_neg (by omega), dif_pos capture, if_neg (by omega),
    dif_neg (by rw [pageLength_append]; omega)]
  simp only [pageLength_append, whole, List.drop_left]

/-- A page that is read is in the input as a whole, and the rest follows it. -/
theorem page_inside {input rest : List UInt8} {p : Page}
    (read : page input = .ok (some (p, rest))) :
    pageLength input ≤ input.length ∧ rest = input.drop (pageLength input) := by
  simp only [page] at read
  split at read
  · cases read
  · split at read
    · cases read
    · split at read
      · split at read
        · cases read
        · split at read
          · cases read
          · next whole =>
            cases read
            exact ⟨Nat.le_of_not_lt whole, rfl⟩
      · cases read

theorem page_shorter {input rest : List UInt8} {p : Page}
    (read : page input = .ok (some (p, rest))) : rest.length < input.length := by
  obtain ⟨inside, rfl⟩ := page_inside read
  rw [pageLength] at inside
  rw [List.length_drop, pageLength]
  omega

theorem page_cut (short : n < p.bytes.length) (q : Page) (rest : List UInt8) :
    page (p.bytes.take n) ≠ .ok (some (q, rest)) := by
  intro read
  have length : (p.bytes.take n).length = n := by
    rw [List.length_take]
    omega
  have enough := (page_inside read).1
  rw [length] at enough
  by_cases header : n < 27
  · rw [pageLength] at enough
    omega
  · by_cases table : n < 27 + segmentCount p.bytes
    · rw [pageLength, take_segmentCount (by omega)] at enough
      omega
    · rw [take_pageLength (by omega), ← p.size] at enough
      omega

/-- The pages that can be read, and how the input ends behind the last one. -/
def readPages (input : List UInt8) : List Page × Except ReadError Unit :=
  match _read : page input with
  | .error e => ([], .error e)
  | .ok none => ([], .ok ())
  | .ok (some (p, rest)) =>
    let (pages, ending) := readPages rest
    (p :: pages, ending)
termination_by input.length
decreasing_by exact page_shorter _read

def flatten (pages : List Page) : List UInt8 := pages.flatMap Page.bytes

@[simp] theorem flatten_nil : flatten [] = [] := rfl

@[simp] theorem flatten_append (front back : List Page) :
    flatten (front ++ back) = flatten front ++ flatten back :=
  List.flatMap_append

@[simp] theorem flatten_singleton : flatten [p] = p.bytes := by simp [flatten]

/-- The complete pages at the front of some bytes. -/
def wholePages : List Page := (readPages bytes).1

theorem readPages_append (rest : List UInt8) :
    readPages (p.bytes ++ rest) = (p :: (readPages rest).1, (readPages rest).2) := by
  rw [readPages]
  split
  · rename_i e read
    rw [page_append] at read
    cases read
  · rename_i read
    rw [page_append] at read
    cases read
  · rename_i q rest' read
    rw [page_append] at read
    cases read
    rfl

theorem readPages_flatten (pages : List Page) : readPages (flatten pages) = (pages, .ok ()) := by
  induction pages with
  | nil => simp [readPages, page]
  | cons p later ih =>
    have split : flatten (p :: later) = p.bytes ++ flatten later := by simp [flatten]
    rw [split, readPages_append, ih]

theorem wholePages_append (rest : List UInt8) :
    wholePages (p.bytes ++ rest) = p :: wholePages rest := by
  rw [wholePages, readPages_append]
  rfl

theorem wholePages_cut (short : n < p.bytes.length) : wholePages (p.bytes.take n) = [] := by
  rw [wholePages, readPages]
  split
  · rfl
  · rfl
  · rename_i q rest read
    exact absurd read (page_cut p short q rest)

@[simp] theorem wholePages_nil : wholePages [] = [] := by
  simp [wholePages, readPages, page]

/-- Pages that are sent one after the other are read back, without what follows them. -/
theorem wholePages_flatten (pages : List Page) {rest : List UInt8}
    (nothing : wholePages rest = []) :
    wholePages (flatten pages ++ rest) = pages := by
  induction pages with
  | nil => exact nothing
  | cons p later ih =>
    have split : flatten (p :: later) ++ rest = p.bytes ++ (flatten later ++ rest) := by
      simp [flatten]
    rw [split, wholePages_append, ih]

/-- What is cut off at any byte is cut off inside of some page. -/
theorem take_flatten (pages : List Page) (n : Nat) :
    ∃ whole, whole <+: pages ∧ wholePages ((flatten pages).take n) = whole := by
  induction pages generalizing n with
  | nil => exact ⟨[], List.nil_prefix, by simp⟩
  | cons p rest ih =>
    have split : flatten (p :: rest) = p.bytes ++ flatten rest := by simp [flatten]
    by_cases short : n < p.bytes.length
    · refine ⟨[], List.nil_prefix, ?_⟩
      rw [split, List.take_append_of_le_length (by omega)]
      exact wholePages_cut p short
    · obtain ⟨whole, part, read⟩ := ih (n - p.bytes.length)
      refine ⟨p :: whole, List.cons_prefix_cons.mpr ⟨rfl, part⟩, ?_⟩
      rw [split, List.take_append, List.take_of_length_le (by omega), wholePages_append, read]

/-- A number from its bytes, least significant first. -/
def fromLeBytes : Nat := bytes.foldr (fun b n => b.toNat + 256 * n) 0

namespace Page

/-- `p[5] & 2 != 0`. -/
def isBos (p : Page) : Bool := (p.bytes.getD 5 0).toNat.testBit 1

def granule (p : Page) : Nat := fromLeBytes ((p.bytes.drop 6).take 8)

def serial (p : Page) : Nat := fromLeBytes ((p.bytes.drop 14).take 4)

def segments (p : Page) : List UInt8 := lacing p.bytes

def body (p : Page) : List UInt8 := p.bytes.drop (27 + segmentCount p.bytes)

/-- The packets that end on the page. -/
def packetEnds (p : Page) : Nat := p.segments.countP fun n => n.toNat < 255

end Page

variable (stream : List Page)

/-- The pages of a stream with its first three packets. -/
def headerPages : List Page := lead Page.packetEnds 3 0 stream

def audioPages : List Page := Streams.body Page.packetEnds 3 0 stream

/-- The header packets that have ended. -/
def headerPackets : Nat := total Page.packetEnds 3 0 stream

theorem headerPages_concat (p : Page) :
    headerPages (stream ++ [p]) =
      headerPages stream ++ if headerPackets stream < 3 then [p] else [] := by
  rw [headerPages, lead_append]
  rfl

theorem audioPages_concat (p : Page) :
    audioPages (stream ++ [p]) =
      audioPages stream ++ if headerPackets stream < 3 then [] else [p] := by
  rw [audioPages, body_append]
  rfl

theorem headerPackets_concat (p : Page) :
    headerPackets (stream ++ [p]) =
      if headerPackets stream < 3 then headerPackets stream + p.packetEnds
      else headerPackets stream := by
  rw [headerPackets, total_append]
  rfl

theorem headerPages_isPrefix (more : List Page) :
    headerPages stream <+: headerPages (stream ++ more) := by
  rw [headerPages, headerPages, lead_append]
  exact List.prefix_append _ _

theorem headerPages_complete {stream : List Page} (complete : 3 ≤ headerPackets stream)
    (more : List Page) : headerPages (stream ++ more) = headerPages stream := by
  have nothing : lead Page.packetEnds 3 (headerPackets stream) more = [] :=
    lead_full _ _ complete more
  rw [headerPages, lead_append]
  change headerPages stream ++ lead Page.packetEnds 3 (headerPackets stream) more = _
  rw [nothing, List.append_nil]

theorem headerPackets_complete {stream : List Page} (complete : 3 ≤ headerPackets stream)
    (more : List Page) : 3 ≤ headerPackets (stream ++ more) := by
  have same : headerPackets (stream ++ more) = headerPackets stream := by
    rw [headerPackets, total_append]
    exact total_full _ _ complete more
  omega

theorem headerPackets_headerPages : headerPackets (headerPages stream) = headerPackets stream :=
  total_lead ..

theorem audioPages_isPrefix (more : List Page) :
    audioPages stream <+: audioPages (stream ++ more) := by
  rw [audioPages, audioPages, body_append]
  exact List.prefix_append _ _

theorem audioPages_header {stream pages : List Page} (header : pages <+: headerPages stream) :
    audioPages pages = [] := by
  obtain ⟨rest, split⟩ := header
  have nothing : audioPages (pages ++ rest) = [] := by
    rw [split]
    exact body_lead ..
  have part := audioPages_isPrefix pages rest
  rw [nothing] at part
  exact List.prefix_nil.mp part

theorem header_append_audio : headerPages stream ++ audioPages stream = stream :=
  lead_append_body ..

end OggPage
