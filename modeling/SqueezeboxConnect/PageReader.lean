import SqueezeboxConnect.OggPage
import SqueezeboxConnect.ShortReads
import SqueezeboxConnect.Words

/-!
# Reading pages from a stream

`page` as the reading thread of the bridge runs it: one byte, the rest of the
header, the lacing values, the body, each from a source that may cut its bytes
into short reads anywhere and may fail. Without failures it is the reader over
all bytes that `OggPage` has, however they are cut.
-/

namespace PageReader

open ShortReads OggPage Words

universe u
variable {E : Type u}

abbrev Input (E : Type u) := Source E UInt8

inductive PageError (E : Type u) where
  | read (why : Failure E)
  | invalidCapture
  deriving DecidableEq

/-- A result and what is left of the input. -/
abbrev Reply (E : Type u) (A : Type) := Except (PageError E) A × Input E

/-- The `?` operator. -/
def andThen {A C : Type} (reply : Reply E A) (next : A → Input E → Reply E C) : Reply E C :=
  match reply with
  | (.ok a, left) => next a left
  | (.error e, left) => (.error e, left)

variable (retries : E → Bool)

/-- `read_exact` into a buffer of the given size. -/
def fill (n : Nat) (input : Input E) : Reply E Bytes :=
  let (taken, left) := readExact retries input n
  (taken.mapError .read, left)

/-- The lacing values and the body behind a header. -/
def finish (h : Bytes) (left : Input E) : Reply E (Option Bytes) :=
  if captured h then
    andThen (fill retries (segmentCount h) left) fun table left =>
      andThen (fill retries (table.map UInt8.toNat).sum left) fun body left =>
        (.ok (some (h ++ table ++ body)), left)
  else (.error .invalidCapture, left)

def page (input : Input E) : Reply E (Option Bytes) :=
  match read 1 input with
  | (.error why, left) => (.error (.read (.failed why)), left)
  | (.ok first, left) =>
    if first.isEmpty then (.ok none, left)
    else andThen (fill retries 26 left) fun rest left => finish retries (first ++ rest) left

/-- The first calls of `page` return these pages. -/
inductive Reads : Input E → List Bytes → Input E → Prop
  | none (input : Input E) : Reads input [] input
  | more {input left rest : Input E} {p : Bytes} {pages : List Bytes}
      (first : page retries input = (.ok (some p), left)) (later : Reads left pages rest) :
      Reads input (p :: pages) rest

variable {retries}

theorem andThen_ok {A C : Type} {reply : Reply E A} {next : A → Input E → Reply E C} {c : C}
    {rest : Input E} (done : andThen reply next = (.ok c, rest)) :
    ∃ a left, reply = (.ok a, left) ∧ next a left = (.ok c, rest) := by
  obtain ⟨a | a, left⟩ := reply
  · cases done
  · exact ⟨a, left, rfl, done⟩

variable {input left : Input E}

theorem fill_ok {n : Nat} {taken : Bytes} (done : fill retries n input = (.ok taken, left)) :
    taken.length = n ∧ content input = taken ++ content left := by
  have reading := readExact_reading retries input n
  rw [fill] at done
  generalize readExact retries input n = result at reading done
  cases reading with
  | filled size split _ =>
    cases done
    exact ⟨size, split⟩
  | failed _ => cases done

/-- A header, the lacing values it counts and the body these add up to are a page. -/
theorem assembled_page {h table body : Bytes} (header : h.length = 27)
    (capture : captured h = true) (count : table.length = segmentCount h)
    (size : body.length = (table.map UInt8.toNat).sum) :
    captured (h ++ table ++ body) = true ∧
      (h ++ table ++ body).length = pageLength (h ++ table ++ body) := by
  have front : (h ++ table ++ body).take 27 = h := by
    rw [List.append_assoc, ← header, List.take_left]
  have count' : segmentCount (h ++ table ++ body) = table.length := by
    rw [← take_segmentCount (Nat.le_refl 27), front, count]
  have values : lacing (h ++ table ++ body) = table := by
    rw [lacing, count', List.append_assoc, ← header, List.drop_left, List.take_left]
  constructor
  · rw [← take_capture (Nat.le_refl 27), front]
    exact capture
  · rw [pageLength, bodyLength, count', values, ← size, List.length_append, List.length_append,
      header]

theorem finish_ok {h : Bytes} (header : h.length = 27) {rest : Input E} {result : Option Bytes}
    (done : finish retries h left = (.ok result, rest)) :
    ∃ p : Page, result = some p.bytes ∧ h ++ content left = p.bytes ++ content rest := by
  rw [finish] at done
  split at done
  · rename_i capture
    obtain ⟨table, left₁, lacing, done⟩ := andThen_ok done
    obtain ⟨body, left₂, filled, done⟩ := andThen_ok done
    cases done
    obtain ⟨tableSize, tableTaken⟩ := fill_ok lacing
    obtain ⟨bodySize, bodyTaken⟩ := fill_ok filled
    obtain ⟨capture', size⟩ := assembled_page header capture tableSize bodySize
    refine ⟨⟨_, capture', size⟩, rfl, ?_⟩
    rw [tableTaken, bodyTaken]
    simp only [List.append_assoc]
  · cases done

/-- A call without an error takes a page off the front, or is at the end of the input. -/
theorem page_ok {result : Option Bytes} (done : page retries input = (.ok result, left)) :
    result = none ∧ content input = [] ∨
      ∃ p : Page, result = some p.bytes ∧ content input = p.bytes ++ content left := by
  cases begun : read 1 input with
  | mk outcome left₁ =>
    rw [page, begun] at done
    cases outcome with
    | error why => cases done
    | ok first =>
      obtain ⟨taken, ends, short⟩ := read_ok begun
      dsimp only at done
      split at done
      · rename_i empty
        cases done
        rw [ends (List.isEmpty_iff.mp empty)]
        exact Or.inl ⟨rfl, rfl⟩
      · rename_i filled
        obtain ⟨rest, left₂, header, done⟩ := andThen_ok done
        obtain ⟨restSize, restTaken⟩ := fill_ok header
        have one : first.length = 1 := by
          have positive := List.length_pos_iff.mpr (mt List.isEmpty_iff.mpr filled)
          omega
        obtain ⟨p, page, split⟩ := finish_ok (by rw [List.length_append, one, restSize]) done
        refine Or.inr ⟨p, page, ?_⟩
        rw [taken, restTaken, ← List.append_assoc, split]

theorem reads_content {pages : List Bytes} (reads : Reads retries input pages left) :
    content input = pages.flatten ++ content left := by
  induction reads with
  | none input => rfl
  | more first later ih =>
    rcases page_ok first with ⟨nothing, -⟩ | ⟨p, same, taken⟩
    · cases nothing
    · cases same
      rw [taken, ih, List.flatten_cons, List.append_assoc]

section Calm

theorem fill_calm (calm : Calm input) (n : Nat) :
    if n ≤ (content input).length then
      ∃ left, fill retries n input = (.ok ((content input).take n), left) ∧ Calm left ∧
        content left = (content input).drop n
    else ∃ left, fill retries n input = (.error (.read .unexpectedEof), left) := by
  have reading := readExact_reading retries input n
  rw [fill]
  generalize readExact retries input n = result at reading
  cases reading with
  | @filled taken left size split calm' =>
    have front : (content input).take n = taken := by
      rw [split, ← size, List.take_left]
    have back : (content input).drop n = content left := by
      rw [split, ← size, List.drop_left]
    have enough : n ≤ (content input).length := by
      rw [split, List.length_append]
      omega
    rw [if_pos enough, front, back]
    exact ⟨left, rfl, calm' calm, rfl⟩
  | @failed why left ended =>
    obtain ⟨rfl, few⟩ := ended calm
    rw [if_neg (by omega)]
    exact ⟨left, rfl⟩

def ofReadError : ReadError → PageError E
  | .unexpectedEof => .read .unexpectedEof
  | .invalidCapture => .invalidCapture

/-- The call of `page` does what the reader over all bytes says. -/
def Refines (reply : Reply E (Option Bytes)) :
    Except ReadError (Option (Page × Bytes)) → Prop
  | .ok none => reply.1 = .ok none
  | .ok (some (p, rest)) =>
    ∃ left, reply = (.ok (some p.bytes), left) ∧ Calm left ∧ content left = rest
  | .error e => reply.1 = .error (ofReadError e)

/-- What is left to do once the header is known to be one. -/
theorem body_refines {bytes : Bytes} (capture : captured bytes = true)
    (enough : 27 + segmentCount bytes ≤ bytes.length) (calm : Calm left)
    (rest : content left = bytes.drop (27 + segmentCount bytes)) :
    Refines (andThen (fill retries (bodyLength bytes) left) fun body left =>
      (.ok (some (bytes.take 27 ++ lacing bytes ++ body)), left)) (OggPage.page bytes) := by
  have filled := @fill_calm _ retries _ calm (bodyLength bytes)
  rw [rest, List.length_drop] at filled
  by_cases whole : pageLength bytes ≤ bytes.length
  · have size : pageLength bytes = 27 + segmentCount bytes + bodyLength bytes := rfl
    rw [if_pos (by omega), List.drop_drop, ← size] at filled
    obtain ⟨left', result, calm', rest'⟩ := filled
    have read : OggPage.page (bytes.take (pageLength bytes) ++ bytes.drop (pageLength bytes)) =
        .ok (some (⟨bytes.take (pageLength bytes), by rw [take_capture (by omega), capture],
          by rw [take_pageLength (by omega), List.length_take_of_le whole]⟩,
          bytes.drop (pageLength bytes))) := page_append ⟨_, _, _⟩ _
    rw [List.take_append_drop] at read
    rw [read, result]
    refine ⟨left', ?_, calm', rest'⟩
    have parts : bytes.take (pageLength bytes) = bytes.take 27 ++ lacing bytes ++
        (bytes.drop (27 + segmentCount bytes)).take (bodyLength bytes) := by
      rw [size, List.take_add, List.take_add]
      rfl
    simp only [parts]
    rfl
  · have short := whole
    rw [pageLength] at short
    rw [if_neg (by omega)] at filled
    obtain ⟨left', failed⟩ := filled
    have read : OggPage.page bytes = .error .unexpectedEof := by
      have nonempty : ¬ bytes.isEmpty = true := by
        rintro empty
        rw [List.isEmpty_iff.mp empty] at enough
        simp at enough
      rw [OggPage.page, if_neg nonempty, if_neg (by omega), dif_pos capture, if_neg (by omega),
        dif_pos (by omega)]
    rw [read, failed]
    rfl

theorem finish_refines {bytes : Bytes} (long : 27 ≤ bytes.length) (calm : Calm left)
    (rest : content left = bytes.drop 27) :
    Refines (finish retries (bytes.take 27) left) (OggPage.page bytes) := by
  have nonempty : ¬ bytes.isEmpty = true := by
    rintro empty
    rw [List.isEmpty_iff.mp empty] at long
    simp at long
  rw [finish, take_capture (Nat.le_refl 27), take_segmentCount (Nat.le_refl 27)]
  by_cases capture : captured bytes = true
  · rw [if_pos capture]
    have table := @fill_calm _ retries _ calm (segmentCount bytes)
    rw [rest, List.length_drop] at table
    by_cases enough : 27 + segmentCount bytes ≤ bytes.length
    · rw [if_pos (by omega), List.drop_drop] at table
      obtain ⟨left', filled, calm', rest'⟩ := table
      rw [filled]
      exact body_refines capture enough calm' rest'
    · rw [if_neg (by omega)] at table
      obtain ⟨left', failed⟩ := table
      have read : OggPage.page bytes = .error .unexpectedEof := by
        rw [OggPage.page, if_neg nonempty, if_neg (by omega), dif_pos capture, if_pos (by omega)]
      rw [failed, read]
      rfl
  · have read : OggPage.page bytes = .error .invalidCapture := by
      rw [OggPage.page, if_neg nonempty, if_neg (by omega), dif_neg capture]
    rw [if_neg capture, read]
    rfl

theorem page_refines (calm : Calm input) :
    Refines (page retries input) (OggPage.page (content input)) := by
  cases whole : content input with
  | nil =>
    rw [eq_nil_of_content calm whole]
    rfl
  | cons b tail =>
    obtain ⟨left, first, calm', rest⟩ := read_calm calm whole
    have begun : page retries input =
        andThen (fill retries 26 left) fun rest left => finish retries ([b] ++ rest) left := by
      rw [page, first]
      rfl
    have header := @fill_calm _ retries _ calm' 26
    rw [begun]
    rw [rest] at header
    by_cases enough : 26 ≤ tail.length
    · rw [if_pos enough] at header
      obtain ⟨left₁, filled, calm₁, rest₁⟩ := header
      rw [filled]
      have long : 27 ≤ (b :: tail).length := Nat.succ_le_succ enough
      exact finish_refines long calm₁ rest₁
    · rw [if_neg enough] at header
      obtain ⟨left₁, failed⟩ := header
      rw [failed, OggPage.page, if_neg (by simp), if_pos (by simp only [List.length_cons]; omega)]
      rfl

theorem readPages_eq (bytes : Bytes) :
    readPages bytes = match OggPage.page bytes with
      | .error e => ([], .error e)
      | .ok none => ([], .ok ())
      | .ok (some (p, rest)) => (p :: (readPages rest).1, (readPages rest).2) := by
  rw [readPages]
  split
  all_goals
    rename_i read
    rw [read]

def ending : Except ReadError Unit → Except (PageError E) (Option Bytes)
  | .ok () => .ok none
  | .error e => .error (ofReadError e)

/-- However the bytes are cut, the calls return the pages that are in them, and then how
the bytes end. -/
theorem reads_readPages (calm : Calm input) :
    ∃ left, Reads retries input ((readPages (content input)).1.map Page.bytes) left ∧
      (page retries left).1 = ending (readPages (content input)).2 := by
  induction size : (content input).length using Nat.strongRecOn generalizing input with
  | ind n ih =>
    have refines := @page_refines _ retries _ calm
    rw [readPages_eq]
    cases read : OggPage.page (content input) with
    | error e =>
      rw [read] at refines
      exact ⟨input, .none input, refines⟩
    | ok result =>
      rw [read] at refines
      cases result with
      | none => exact ⟨input, .none input, refines⟩
      | some next =>
        obtain ⟨p, rest⟩ := next
        obtain ⟨left, first, calm', rfl⟩ := refines
        have shorter := page_shorter read
        obtain ⟨left', later, ends⟩ := ih _ (by omega) calm' rfl
        exact ⟨left', .more first later, ends⟩

end Calm

/-- A page of version 0: what is between the version and the lacing values, the lacing
values, and a body of the length they give. -/
structure Fields where
  /-- Flags, granule position, serial number, page number and checksum. -/
  fields : List UInt8
  lacing : List UInt8
  body : List UInt8
  fields_length : fields.length = 21
  lacing_length : lacing.length ≤ 255
  body_length : body.length = (lacing.map UInt8.toNat).sum

namespace Fields

def header (f : Fields) : Bytes :=
  [0x4F, 0x67, 0x67, 0x53, 0] ++ f.fields ++ [UInt8.ofNat f.lacing.length]

def print (f : Fields) : Bytes := f.header ++ f.lacing ++ f.body

theorem header_spec (f : Fields) :
    f.header.length = 27 ∧ captured f.header = true ∧ segmentCount f.header = f.lacing.length := by
  have length : ([0x4F, 0x67, 0x67, 0x53, 0] ++ f.fields).length = 26 := by
    simp [f.fields_length]
  have count : (UInt8.ofNat f.lacing.length).toNat = f.lacing.length := by
    have bound := f.lacing_length
    rw [UInt8.toNat_ofNat']
    omega
  refine ⟨by rw [header, List.length_append, length]; rfl, by simp [header, captured], ?_⟩
  rw [segmentCount, header, List.getD_eq_getElem?_getD, ← length, List.getElem?_concat_length]
  exact count

theorem print_spec (f : Fields) :
    captured f.print = true ∧ f.print.length = pageLength f.print := by
  obtain ⟨length, capture, count⟩ := f.header_spec
  exact assembled_page length capture count.symm f.body_length

def toPage (f : Fields) : Page := ⟨f.print, f.print_spec.1, f.print_spec.2⟩

end Fields

/-- Printed pages are read back however they are cut, and what is read is always the
print of the bytes that were taken. -/
theorem page_inverse (retries : E → Bool) :
    (∀ (pages : List Fields) (input : Input E), Calm input →
      content input = pages.flatMap Fields.print →
      ∃ left, Reads retries input (pages.map Fields.print) left ∧
        (page retries left).1 = .ok none) ∧
    ∀ (input left : Input E) (pages : List Bytes), Reads retries input pages left →
      content input = pages.flatten ++ content left ∧
        ((page retries left).1 = .ok none → content left = []) := by
  constructor
  · intro pages input calm printed
    have whole : content input = flatten (pages.map Fields.toPage) := by
      rw [printed, flatten, List.flatMap_map]
      rfl
    have reads := @reads_readPages _ retries _ calm
    rw [whole, readPages_flatten, List.map_map] at reads
    exact reads
  · intro input left pages reads
    refine ⟨reads_content reads, ?_⟩
    intro ends
    rcases page_ok (Prod.ext ends rfl) with ⟨-, nothing⟩ | ⟨p, impossible, -⟩
    · exact nothing
    · cases impossible

def samplePage : Fields := ⟨List.replicate 21 0, [2], [7, 8], rfl, by decide, rfl⟩

def emptyPage : Fields := ⟨List.replicate 21 255, [], [], rfl, by decide, rfl⟩

/-- Two pages that come in byte by byte. -/
theorem twoPages_read :
    let input : Input Unit := (samplePage.print ++ emptyPage.print).map fun b => .chunk b []
    ∃ left, Reads (fun _ => true) input [samplePage.print, emptyPage.print] left ∧
      (page (fun _ => true) left).1 = .ok none := by
  refine (page_inverse fun _ => true).1 [samplePage, emptyPage] _ ?_ (by decide)
  rintro why inside
  obtain ⟨b, -, impossible⟩ := List.mem_map.mp inside
  cases impossible

end PageReader
