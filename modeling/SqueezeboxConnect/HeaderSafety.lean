import SqueezeboxConnect.ByteFields
import SqueezeboxConnect.ClientStream

/-!
# The replay cache never leaves its bounds

`observe` once more, now with every index, slice and subtraction checked, and
with the tracker that a call leaves behind when it returns an error. On pages
that were read it does not panic and does what the unchecked tracker does. The
bridge divides by the sample rate only behind an identification header, and
that one was in range.
-/

namespace HeaderSafety

open Runs Streams OggPage HeaderTracker BridgeLoop Bridge BridgeMoves ByteFields

/-- What a call leaves behind, and what it returns. -/
abbrev Call := Except Panic (Headers × Except HeaderError Unit)

/-- `prefix.len() < 7 || prefix[0] != expected || &prefix[1..7] != b"vorbis"`, negated. -/
def signed (start : List UInt8) (expected : UInt8) : Except Panic Bool :=
  if start.length < 7 then .ok false
  else (index start 0).bind fun first =>
    if first ≠ expected then .ok false
    else (slice start 1 7).bind fun name => .ok (name == [0x76, 0x6F, 0x72, 0x62, 0x69, 0x73])

/-- The rate is stored before it is looked at. -/
def identify (h : Headers) : Call :=
  if h.packetPrefix.length < 16 then .ok (h, .error .shortIdentification)
  else (slice h.packetPrefix 12 16).bind fun word => (array 4 word).bind fun word =>
    let h := { h with rate := fromLeBytes word }
    if h.rate = 0 ∨ 192000 < h.rate then .ok (h, .error .sampleRate)
      else .ok (h.countPacket, .ok ())

def endPacket (h : Headers) : Call :=
  (index [1, 3, 5] h.packets).bind fun expected =>
    (signed h.packetPrefix expected).bind fun isSigned =>
      if !isSigned then .ok (h, .error .signature)
      else if h.packets = 0 then identify h
      else .ok (h.countPacket, .ok ())

def observeSegments (p : List UInt8) : List UInt8 → Nat → Headers → Call
  | [], _, h => .ok (h, .ok ())
  | segment :: rest, offset, h =>
    if h.packets = 3 then .ok (h, .error .audioOnSetupPage)
    else (checkedSub 16 h.packetPrefix.length).bind fun room =>
      (slice p offset (offset + min room segment.toNat)).bind fun bytes =>
        let h := { h with packetPrefix := h.packetPrefix ++ bytes }
        if segment.toNat < 255 then
          (endPacket h).bind fun call =>
            match call with
            | (h, .ok ()) => observeSegments p rest (offset + segment.toNat) h
            | (h, .error e) => .ok (h, .error e)
        else observeSegments p rest (offset + segment.toNat) h

/-- A page of the stream that is followed. -/
def cache (h : Headers) (p : List UInt8) : Call :=
  if h.packets = 3 then .ok (h, .ok ())
  else if MAX_HEADERS < h.bytes.length + p.length then .ok (h, .error .tooLong)
  else (index p 26).bind fun n => (slice p 27 (27 + n.toNat)).bind fun segments =>
    (observeSegments p segments (27 + n.toNat) h).bind fun call =>
      match call with
      | (h, .ok ()) => .ok ({ h with bytes := h.bytes ++ p }, .ok ())
      | (h, .error e) => .ok (h, .error e)

def observe (h : Headers) (p : List UInt8) : Call :=
  (slice p 14 18).bind fun word => (array 4 word).bind fun word => (index p 5).bind fun flags =>
    let serial := fromLeBytes word
    let h := if flags.toNat.testBit 1 then { Headers.new with serial := some serial } else h
    if h.serial ≠ some serial then .ok (h, .error .withoutBos) else cache h p

structure Bounded (h : Headers) : Prop where
  packets_le : h.packets ≤ 3
  prefix_le : h.packetPrefix.length ≤ 16
  bytes_le : h.bytes.length ≤ MAX_HEADERS

/-- A call that does not panic, keeps the bounds and agrees with the unchecked one. -/
def Refines (call : Call) (unchecked : Except HeaderError Headers) : Prop :=
  ∃ h result, call = .ok (h, result) ∧ Bounded h ∧ unchecked = result.map fun _ => h

variable {h : Headers} {b : Bridge}

theorem refines_error (bounded : Bounded h) (e : HeaderError) :
    Refines (.ok (h, .error e)) (.error e) :=
  ⟨h, .error e, rfl, bounded, rfl⟩

theorem refines_ok (bounded : Bounded h) : Refines (.ok (h, .ok ())) (.ok h) :=
  ⟨h, .ok (), rfl, bounded, rfl⟩

/-- The rule for sequencing; an error ends both. -/
theorem refines_bind {call : Call} {unchecked : Except HeaderError Headers}
    {next : Headers → Call} {next' : Headers → Except HeaderError Headers}
    (first : Refines call unchecked) (rest : ∀ h, Bounded h → unchecked = .ok h →
      Refines (next h) (next' h)) :
    Refines (call.bind fun call => match call with
      | (h, .ok ()) => next h
      | (h, .error e) => .ok (h, .error e)) (unchecked.bind next') := by
  obtain ⟨h, result, called, bounded, agrees⟩ := first
  subst called agrees
  cases result with
  | ok _ => exact rest h bounded rfl
  | error e => exact refines_error bounded e

theorem signed_eq (h : Headers) :
    signed h.packetPrefix (Headers.expected h.packets) = .ok h.signed := by
  rw [signed, Headers.signed]
  split
  · rename_i short
    have not : ¬ 7 ≤ h.packetPrefix.length := by omega
    simp [not]
  · rename_i long
    have seven : 7 ≤ h.packetPrefix.length := by omega
    rw [index_eq (by omega) 0, slice_eq (by omega) seven]
    generalize h.packetPrefix.getD 0 0 = first
    by_cases same : first = Headers.expected h.packets
    · simp [Except.bind, same, seven]
    · simp [Except.bind, same, seven]

theorem countPacket_bounded (bounded : Bounded h) (few : h.packets ≠ 3) :
    Bounded h.countPacket := by
  have packets := bounded.packets_le
  refine ⟨?_, Nat.zero_le 16, bounded.bytes_le⟩
  simp only [Headers.countPacket]
  omega

theorem endPacket_refines (bounded : Bounded h) (few : h.packets ≠ 3) :
    Refines (endPacket h) h.endPacket := by
  have packets := bounded.packets_le
  have expected : index [1, 3, 5] h.packets = .ok (Headers.expected h.packets) :=
    index_eq (by simp only [List.length_cons, List.length_nil]; omega) 0
  simp only [endPacket, expected, Except.bind, signed_eq, Headers.endPacket]
  split
  · exact refines_error bounded .signature
  · split
    · rw [identify]
      split
      · exact refines_error bounded .shortIdentification
      · have length : ((h.packetPrefix.drop 12).take (16 - 12)).length = 4 := by
          simp only [List.length_take, List.length_drop]
          omega
        rw [slice_eq (by omega) (by omega)]
        simp only [Except.bind, array_eq length]
        split
        · exact ⟨_, _, rfl, ⟨packets, bounded.prefix_le, bounded.bytes_le⟩, rfl⟩
        · exact ⟨_, _, rfl, countPacket_bounded ⟨packets, bounded.prefix_le, bounded.bytes_le⟩ few,
            rfl⟩
    · exact refines_ok (countPacket_bounded bounded few)

theorem observeSegments_refines (p segments : List UInt8) {offset : Nat} (bounded : Bounded h)
    (inside : offset + (segments.map UInt8.toNat).sum ≤ p.length) :
    Refines (observeSegments p segments offset h)
      (Headers.observeSegments segments (p.drop offset) h) := by
  induction segments generalizing h offset with
  | nil => exact refines_ok bounded
  | cons segment rest ih =>
    rw [List.map_cons, List.sum_cons] at inside
    have room := bounded.prefix_le
    simp only [observeSegments, Headers.observeSegments]
    split
    · exact refines_error bounded .audioOnSetupPage
    · rename_i few
      have start := slice_add (show offset + min (16 - h.packetPrefix.length) segment.toNat ≤
        p.length
        by omega)
      have count : ((p.drop offset).take (min (16 - h.packetPrefix.length) segment.toNat)).length ≤
          16 - h.packetPrefix.length := by
        rw [List.length_take]
        omega
      simp only [checkedSub_eq room, start, Except.bind, List.drop_drop]
      generalize (p.drop offset).take (min (16 - h.packetPrefix.length) segment.toNat) = bytes
        at count
      have bounded' : Bounded { h with packetPrefix := h.packetPrefix ++ bytes } := by
        refine ⟨bounded.packets_le, ?_, bounded.bytes_le⟩
        rw [List.length_append]
        omega
      split
      · exact refines_bind (endPacket_refines bounded' few) fun h' bounded'' _ =>
          ih bounded'' (by omega)
      · exact ih bounded' (by omega)

theorem cache_refines (bounded : Bounded h) (p : Page) : Refines (cache h p.bytes) (h.cache p) := by
  have size := p.size
  rw [pageLength, bodyLength] at size
  have long := p.length_pos
  have count : index p.bytes 26 = .ok (p.bytes.getD 26 0) := index_eq (by omega) 0
  have table : slice p.bytes 27 (27 + (p.bytes.getD 26 0).toNat) = .ok p.segments := by
    rw [segmentCount] at size
    exact slice_add (by omega)
  rw [cache, Headers.cache]
  split
  · exact refines_ok bounded
  · split
    · exact refines_error bounded .tooLong
    · rename_i short
      simp only [count, table, Except.bind]
      refine refines_bind (observeSegments_refines p.bytes p.segments bounded (by
        rw [segmentCount] at size
        exact Nat.le_of_eq size.symm)) ?_
      intro h' bounded' done
      refine refines_ok ⟨bounded'.packets_le, bounded'.prefix_le, ?_⟩
      have same := (observeSegments_counted done).bytes_eq
      simp only [same, List.length_append]
      omega

theorem bounded_new (serial : Option Nat) : Bounded { Headers.new with serial := serial } :=
  ⟨Nat.zero_le 3, Nat.zero_le 16, Nat.zero_le MAX_HEADERS⟩

theorem observe_eq (h : Headers) (p : Page) :
    observe h p.bytes = if (h.started p).serial ≠ some p.serial
      then .ok (h.started p, .error .withoutBos) else cache (h.started p) p.bytes := by
  have long := p.length_pos
  have length : ((p.bytes.drop 14).take (18 - 14)).length = 4 := by
    simp only [List.length_take, List.length_drop]
    omega
  have flags : index p.bytes 5 = .ok (p.bytes.getD 5 0) := index_eq (by omega) 0
  have word : slice p.bytes 14 18 = .ok ((p.bytes.drop 14).take (18 - 14)) :=
    slice_eq (by omega) (by omega)
  simp only [observe, word, array_eq length, flags, Except.bind]
  rfl

theorem observe_refines (bounded : Bounded h) (p : Page) :
    Refines (observe h p.bytes) (h.observe p) := by
  have begun : Bounded (h.started p) := by
    rw [Headers.started]
    split
    · exact bounded_new (some p.serial)
    · exact bounded
  rw [observe_eq, Headers.observe]
  split
  · exact refines_error begun .withoutBos
  · exact cache_refines begun p

section Calls

/-- One more call, with the results of all calls so far. -/
def call (sofar : Except Panic (Headers × List (Except HeaderError Unit))) (p : Page) :
    Except Panic (Headers × List (Except HeaderError Unit)) :=
  sofar.bind fun (h, results) => (observe h p.bytes).map fun (h, result) => (h, results ++ [result])

/-- Calls one after the other, whatever they return. -/
def observeAll (pages : List Page) : Except Panic (Headers × List (Except HeaderError Unit)) :=
  run call (.ok (.new, [])) pages

/-- The results of the calls on the pages of the current stream. -/
def streamResults (pages : List Page) (results : List (Except HeaderError Unit)) :
    List (Except HeaderError Unit) :=
  results.drop (pages.length - (current Page.isBos pages).length)

/-- What is known of the tracker after some calls. -/
structure Tracked (pages : List Page) (h : Headers) (results : List (Except HeaderError Unit)) :
    Prop where
  length_eq : results.length = pages.length
  bounded : Bounded h
  outside : current Page.isBos pages = [] → h = .new
  follows : (∀ r ∈ streamResults pages results, r = .ok ()) →
    Follows (current Page.isBos pages) h

theorem call_tracked {pages : List Page} {results : List (Except HeaderError Unit)}
    (tracked : Tracked pages h results) (p : Page) :
    ∃ h' result, observe h p.bytes = .ok (h', result) ∧
      Tracked (pages ++ [p]) h' (results ++ [result]) := by
  obtain ⟨h', result, called, bounded, agrees⟩ := observe_refines tracked.bounded p
  have length := tracked.length_eq
  have outside : current Page.isBos (pages ++ [p]) = [] → h' = .new := by
    intro nothing
    rw [current_concat, extend] at nothing
    split at nothing
    · cases nothing
    · rename_i inside
      split at nothing
      · rename_i before
        have new : h = .new := tracked.outside (by simpa using before)
        have same : h.started p = .new := by rw [new]; exact if_neg inside
        rw [observe_eq, same, if_pos (by simp [Headers.new])] at called
        cases called
        rfl
      · simp at nothing
  refine ⟨h', result, called, by simp [length], bounded, outside, ?_⟩
  intro good
  by_cases none : current Page.isBos (pages ++ [p]) = []
  · rw [none, outside none]
    exact ⟨holds_new .none, rfl⟩
  · by_cases bos : p.isBos = true
    · have last : result = .ok () := by
        refine good result ?_
        rw [streamResults, current_mark _ _ bos, List.length_append, List.length_singleton,
          Nat.add_sub_cancel, List.drop_append_of_le_length (by omega)]
        simp
      rw [last] at agrees
      rw [current_mark _ _ bos]
      exact observe_bos bos agrees
    · have inside : p.isBos = false := by simpa using bos
      have before : current Page.isBos pages ≠ [] := by
        intro empty
        exact none (by simp [current_concat, extend, inside, empty])
      have all : streamResults (pages ++ [p]) (results ++ [result]) =
          streamResults pages results ++ [result] := by
        rw [streamResults, streamResults, current_unmarked _ before inside, List.length_append,
          List.length_append, List.length_singleton, Nat.add_sub_add_right,
          List.drop_append_of_le_length (by omega)]
      rw [all] at good
      have last : result = .ok () := good result (by simp)
      rw [last] at agrees
      rw [current_unmarked _ before inside]
      exact (observe_next (tracked.follows fun r old => good r (by simp [old])) inside agrees).2

theorem observeAll_tracked (pages : List Page) :
    ∃ h results, observeAll pages = .ok (h, results) ∧ Tracked pages h results := by
  induction pages using List.reverseRecOn with
  | nil => exact ⟨.new, [], rfl, rfl, bounded_new none, fun _ => rfl, fun _ =>
    ⟨holds_new none, rfl⟩⟩
  | append_singleton pages p ih =>
    obtain ⟨h, results, returned, tracked⟩ := ih
    obtain ⟨h', result, called, tracked'⟩ := call_tracked tracked p
    refine ⟨h', results ++ [result], ?_, tracked'⟩
    rw [observeAll] at returned
    rw [observeAll, run_append, returned, run_cons, run_nil]
    simp only [call, Except.bind, called, Except.map]

end Calls

def RateValid (h : Headers) : Prop := 1 ≤ h.rate ∧ h.rate ≤ 192000

/-- The sample rate is known from the first header packet on. -/
structure Rated (h : Headers) : Prop where
  packets_le : h.packets ≤ 3
  rate : 0 < h.packets → RateValid h

theorem observe_rated {h' : Headers} {p : Page} (rated : Rated h) (done : h.observe p = .ok h') :
    Rated h' := by
  have begun : Rated (h.started p) := by
    rw [Headers.started]
    split
    · exact ⟨Nat.zero_le 3, fun filled => absurd filled (Nat.lt_irrefl 0)⟩
    · exact rated
  simp only [Headers.observe, Headers.cache] at done
  split at done
  · cases done
  · split at done
    · cases done
      exact begun
    · split at done
      · cases done
      · obtain ⟨h₁, segments, last⟩ := Outcomes.ok_of_bind done
        cases last
        have counted := observeSegments_counted segments
        exact ⟨counted.packets_le begun.packets_le, fun present =>
          ⟨counted.rate_pos (fun before => (begun.rate before).1) present,
            counted.rate_le (fun before => (begun.rate before).2) present⟩⟩

theorem observe_complete {h' : Headers} {p : Page} (inside : p.isBos = false)
    (complete : h.packets = 3) (done : h.observe p = .ok h') : h' = h := by
  have same : h.started p = h := if_neg (by simp [inside])
  simp only [Headers.observe, same, Headers.cache, if_pos complete] at done
  split at done
  · cases done
  · cases done
    rfl

/-- The rate is valid while an audio page is pending. -/
def AudioPaced (b : Bridge) : Prop :=
  b.pending.isSome = true → b.pendingHeader = false → RateValid b.headers

structure Paced (b : Bridge) : Prop where
  rated : Rated b.headers
  complete : b.pending.isSome = true → b.pendingHeader = false → b.headers.packets = 3

theorem audioPaced_of_paced (paced : Paced b) : AudioPaced b := by
  intro pending audio
  refine paced.rated.rate ?_
  rw [paced.complete pending audio]
  omega

theorem checkLoading_paced (config : Config) (tick : Tick) (paced : Paced b) :
    Paced (b.checkLoading config tick) := by
  rcases checkLoading_cases config tick b with ⟨same, -⟩ | ⟨text, -, -, -, begun⟩
  · rw [same]
    exact paced
  · rw [begun]
    exact ⟨paced.rated, fun pending => by cases pending⟩

variable {b' : Bridge} {tick : Tick}

theorem accepting_paced (paced : Paced b) (accepting : Accepting tick b b') : Paced b' := by
  cases accepting with
  | nobody => exact paced
  | replayed => exact ⟨paced.rated, paced.complete⟩
  | replayFailed => exact ⟨paced.rated, paced.complete⟩

theorem keepPage_paced {p : Page} {isHeader : Bool} (rated : Rated b.headers)
    (absent : b.pending = none) (audio : isHeader = false → b.headers.packets = 3) :
    Paced (b.keepPage p isHeader) := by
  rw [keepPage]
  split
  · exact ⟨rated, fun _ => audio⟩
  · refine ⟨rated, ?_⟩
    rw [absent]
    intro pending
    cases pending

theorem pending_beginStream (absent : b.pending = none) (p : Page) :
    (b.beginStream p).pending = .none := by
  rw [beginStream]
  split
  · rfl
  · exact absent

theorem move_paced {config : Config} (paced : Paced b) (move : Move config tick b b') :
    Paced b' := by
  cases move with
  | discarded => exact ⟨paced.rated, paced.complete⟩
  | timed => exact ⟨paced.rated, paced.complete⟩
  | kept noPending queue wanted observed announced =>
    rename_i p rest headers generation marker
    refine keepPage_paced (observe_rated paced.rated observed)
      (pending_beginStream (b := b.takePage p rest) noPending p) ?_
    intro audio
    simp only [Bool.or_eq_false_iff, decide_eq_false_iff_not] at audio
    have packets := paced.rated.packets_le
    have complete : b.headers.packets = 3 := by omega
    exact (observe_complete audio.1 complete observed).symm ▸ complete
  | wrote pending =>
    simp only [advance]
    split
    · exact ⟨paced.rated, fun filled => by cases filled⟩
    · exact ⟨paced.rated, paced.complete⟩
  | disconnected pending =>
    refine ⟨paced.rated, ?_⟩
    intro _ audio
    exact paced.complete (by simp [pending]) audio

theorem leave_audioPaced (paced : Paced b) (leaves : Leave b b') : AudioPaced b' := by
  cases leaves with
  | left e => exact audioPaced_of_paced ⟨paced.rated, paced.complete⟩
  | failed headers generation e noPending queue =>
    rename_i p rest _
    have nothing := pending_beginStream (b := b.takePage p rest) noPending p
    intro pending
    simp [leave, nothing] at pending

theorem run_paced (config : Config) (producer : List Page × Except ReadError Unit)
    (ticks : List Tick) : Kept Paced AudioPaced (run (step config) (new producer) ticks) := by
  have start : Paced (new producer) :=
    ⟨⟨Nat.zero_le 3, fun filled => absurd filled (Nat.lt_irrefl 0)⟩,
      fun pending => by cases pending⟩
  refine run_invariant' (fun b tick kept => ?_) ticks ⟨fun _ => start, audioPaced_of_paced start⟩
  exact step_kept config tick b (fun paced => checkLoading_paced config tick paced)
    (fun _ _ paced accepts => accepting_paced paced accepts)
      (fun _ _ paced move => move_paced paced move)
    (fun _ paced => paced) (fun _ paced => audioPaced_of_paced paced)
    (fun _ _ paced leaves => leave_audioPaced paced leaves) kept.between (fun _ => kept.always)

/-- The pages are forwarded from a state in which the rate is valid. -/
theorem prepare_paced {config : Config} (paced : Paced b)
    (prepared : prepare config tick b = .ok b') : Paced b' := by
  have spec := prepare_spec config tick b
  rw [prepared] at spec
  obtain ⟨m, accepting, moves⟩ := spec
  exact moves_running config tick (fun _ _ paced move => move_paced paced move) moves
    (accepting_paced (checkLoading_paced config tick paced) accepting)

/-- Whatever pages come in and whatever the calls return, the tracker does not panic and stays
in its bounds, and it holds the header pages of a stream none of whose pages was rejected.
Between the rounds of the bridge, and where a round divides by the rate, the rate is valid
while an audio page is pending. -/
theorem headers_safe :
    (∀ pages, ∃ h results, observeAll pages = .ok (h, results) ∧
      results.length = pages.length ∧ Bounded h ∧
      ((∀ r ∈ streamResults pages results, r = .ok ()) →
        h.bytes = flatten (headerPages (current Page.isBos pages)))) ∧
    ∀ config producer ticks, AudioPaced (run (step config) (new producer) ticks) ∧
      ∀ tick b, (run (step config) (new producer) ticks).exit = none →
        prepare config tick (run (step config) (new producer) ticks) = .ok b → AudioPaced b := by
  constructor
  · intro pages
    obtain ⟨h, results, returned, tracked⟩ := observeAll_tracked pages
    exact ⟨h, results, returned, tracked.length_eq, tracked.bounded,
      fun good => (tracked.follows good).bytes_eq⟩
  · intro config producer ticks
    have kept := run_paced config producer ticks
    refine ⟨kept.always, ?_⟩
    intro tick b running prepared
    exact audioPaced_of_paced (prepare_paced (kept.between running) prepared)

/-- A stream with its headers is followed, and its first audio page waits for a client. -/
theorem shortStream_safe :
    (∃ h results, observeAll ClientStream.shortStream = .ok (h, results) ∧
      h.bytes = flatten (headerPages ClientStream.shortStream)) ∧
    RateValid (run (step ClientStream.unpaced) (new (ClientStream.shortStream, .ok ()))
      (List.replicate 4 { ClientStream.quiet with ready := true })).headers := by
  obtain ⟨calls, paced⟩ := headers_safe
  constructor
  · obtain ⟨h, results, returned, -, -, holds⟩ := calls ClientStream.shortStream
    have good : observeAll ClientStream.shortStream =
        .ok (_, [.ok (), .ok (), .ok (), .ok ()]) := rfl
    have same := congrArg Prod.snd (Except.ok.inj (returned.symm.trans good))
    refine ⟨h, results, returned, holds ?_⟩
    intro r inside
    have member := List.mem_of_mem_drop inside
    dsimp only at same
    rw [same] at member
    simpa using member
  · exact (paced ClientStream.unpaced (ClientStream.shortStream, .ok ()) _).1 (by decide +kernel)
      (by decide +kernel)

end HeaderSafety
