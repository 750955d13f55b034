import SqueezeboxConnect.ClientStream

/-!
# Nothing lost and nothing repeated

As long as the loading marker stays the same, an audio page is pending until
some client has got the whole of it. So what the clients of one logical stream
got in full, together with the pending page, is always the audio that has been
taken from the queue, and the next stream only begins when nothing is owed.
-/

namespace Delivery

open Runs Streams OggPage HeaderTracker BridgeLoop Bridge BridgeMoves ClientStream Words

/-- The audio pages a client got in full. -/
def gotInFull (c : Connection) : List Page := audioPages (wholePages c.sent)

/-- The client was accepted while the bridge was in the stream. -/
def ofStream (before stream : List Page) (c : Connection) : Bool :=
  before.length < c.next && c.next ≤ before.length + stream.length

/-- The audio pages that some clients of a stream got in full, one client after the other. -/
def gotBy (before stream : List Page) (clients : List Connection) : List Page :=
  (clients.filter (ofStream before stream)).flatMap gotInFull

def delivered (before stream : List Page) (b : Bridge) : List Page :=
  gotBy before stream b.connections

/-- The audio page that has been taken and that nobody got in full. -/
def owed (b : Bridge) : List Page := if b.pendingHeader then [] else b.pending.toList

theorem gotBy_append (before stream : List Page) (front back : List Connection) :
    gotBy before stream (front ++ back) = gotBy before stream front ++
      gotBy before stream back := by
  simp [gotBy]

variable {c : Connection}

theorem gotBy_nothing (before stream : List Page) (nothing : gotInFull c = []) :
    gotBy before stream [c] = [] := by
  simp only [gotBy, List.filter_cons, List.filter_nil]
  split <;> simp [nothing]

/-- How far the delivery of a stream has got when a number of pages has been taken. -/
structure Progress (before stream : List Page) (taken : Nat) (delivered owed : List Page) :
    Prop where
  early : taken ≤ before.length → delivered = []
  inside : before.length < taken → taken ≤ before.length + stream.length →
    delivered ++ owed = audioPages (stream.take (taken - before.length))
  late : before.length + stream.length < taken → delivered = audioPages stream

theorem progress_isPrefix {before stream : List Page} {taken : Nat} {delivered owed : List Page}
    (h : Progress before stream taken delivered owed) : delivered <+: audioPages stream := by
  by_cases early : taken ≤ before.length
  · rw [h.early early]
    exact List.nil_prefix
  · by_cases inside : taken ≤ before.length + stream.length
    · have part := h.inside (by omega) inside
      have shorter := audioPages_isPrefix (stream.take (taken - before.length))
        (stream.drop (taken - before.length))
      rw [List.take_append_drop, ← part] at shorter
      exact (List.prefix_append delivered owed).trans shorter
    · exact h.late (by omega) ▸ List.prefix_refl _

/-- The audio page that is owed once a page has been taken behind some others. -/
def nextOwed (received : List Page) (p : Page) : List Page :=
  if p.isBos then [] else if headerPackets (current Page.isBos received) < 3 then [] else [p]

variable {pages : List Page} {p : Page}

theorem progress_take {before stream after received : List Page}
    (cut : Cut Page.isBos before stream after pages) (part : received ++ [p] <+: pages)
    {delivered : List Page} (h : Progress before stream received.length delivered []) :
    Progress before stream (received ++ [p]).length delivered (nextOwed received p) := by
  have shorter : received <+: pages := (List.prefix_append received [p]).trans part
  have length : (received ++ [p]).length = received.length + 1 := by simp
  refine ⟨?_, ?_, ?_⟩
  · intro early
    exact h.early (by omega)
  · intro begun inside
    have stream_eq := cut_within cut part begun inside
    by_cases bos : p.isBos = true
    · -- the page is the first one of the stream
      rw [current_mark Page.isBos received bos] at stream_eq
      have one := congrArg List.length stream_eq
      rw [List.length_take, List.length_singleton] at one
      rw [nextOwed, if_pos bos, ← stream_eq, h.early (by omega)]
      rfl
    · have unmarked : p.isBos = false := by simpa using bos
      have before_p : current Page.isBos received ≠ [] := by
        intro nothing
        rw [current_concat, nothing, extend, if_neg bos] at stream_eq
        have empty := congrArg List.length stream_eq
        rw [List.length_take] at empty
        simp only [List.isEmpty_nil, if_true, List.length_nil] at empty
        omega
      rw [current_unmarked Page.isBos before_p unmarked] at stream_eq
      have more := congrArg List.length stream_eq
      rw [List.length_take, List.length_append, List.length_singleton] at more
      have filled := List.length_pos_iff.mpr before_p
      have sofar := h.inside (by omega) (by omega)
      rw [← cut_within cut shorter (by omega) (by omega), List.append_nil] at sofar
      rw [nextOwed, if_neg bos, ← stream_eq, audioPages_concat, sofar]
  · intro late
    by_cases already : before.length + stream.length < received.length
    · exact h.late already
    · obtain ⟨first, rest, hstream, -⟩ := cut.isStream
      have nonempty : 0 < stream.length := by simp [hstream]
      have sofar := h.inside (by omega) (by omega)
      have whole : received.length - before.length = stream.length := by omega
      rw [List.append_nil, whole, List.take_length] at sofar
      exact sofar

/-- Only what precedes every stream is discarded, and a client belongs to the
stream in which it was accepted. -/
structure Steady (b : Bridge) : Prop where
  drained : b.discardUntilBos = true → b.stream = []
  attached : ∀ c, b.client = some c → b.stream ≠ [] → b.streamStart < c.next
  bounded : ∀ c ∈ b.connections, c.next ≤ b.received.length

/-- The pages a client got tell whether the next one is a header page, as the stream does. -/
theorem headerPackets_forwarded {stream cached skipped : List Page}
    (complete : skipped = [] ∨ cached = headerPages stream ∧ 3 ≤ headerPackets stream)
    (forwarded : List Page) :
    headerPackets (cached ++ forwarded) < 3 ↔
      headerPackets (cached ++ skipped ++ forwarded) < 3 := by
  rcases complete with nothing | ⟨all, full⟩
  · rw [nothing, List.append_nil]
  · have cache : 3 ≤ headerPackets cached := by
      rw [all, headerPackets_headerPages]
      exact full
    have got := headerPackets_complete cache forwarded
    have dealt := headerPackets_complete cache (skipped ++ forwarded)
    rw [← List.append_assoc] at dealt
    omega

/-- The next page of a client is written, or a part of it: what it got in full
and what is owed stay the same together. -/
theorem advance_got {b : Bridge} (h : Running pages b) (pending : b.pending = some p)
    (client : b.client = some c) (n : Nat) :
    ∃ c', (b.advance p c n).client = some c' ∧ c'.next = c.next ∧
      gotInFull c' ++ owed (b.advance p c n) = gotInFull c ++ owed b := by
  obtain ⟨steady, offset, front, -, last, kind⟩ := h.holding p pending
  obtain ⟨cached, -, -, place⟩ := h.feeds c client
  rw [steady] at place
  obtain ⟨skipped, forwarded, split, -, complete, sent⟩ := place
  have dealt : settled b = front := by
    rw [settled, pending, last]
    simp
  have part : partWritten b = p.bytes.take b.offset := by
    rw [partWritten, pending]
    rfl
  rw [dealt] at split
  rw [part] at sent
  have got : wholePages c.sent = cached ++ forwarded := by
    rw [sent]
    exact wholePages_flatten _ (wholePages_cut p offset)
  have written := take_append_write p.bytes b.offset n
  have bound : ((p.bytes.drop b.offset).take n).length ≤ p.bytes.length - b.offset := by
    rw [List.length_take, List.length_drop]
    omega
  refine ⟨{ c with sent := c.sent ++ (p.bytes.drop b.offset).take n }, ?_, rfl, ?_⟩
  · simp only [advance]
    split
    · rfl
    · rfl
  · simp only [gotInFull, got]
    rw [sent, List.append_assoc, written]
    by_cases finished : b.offset + ((p.bytes.drop b.offset).take n).length = p.bytes.length
    · have nothing : owed (b.advance p c n) = [] := by
        simp only [owed, advance, if_pos finished]
        split
        · rfl
        · rfl
      have whole : wholePages (flatten (cached ++ forwarded) ++ p.bytes) =
          cached ++ forwarded ++ [p] := by
        have read := wholePages_flatten (cached ++ forwarded ++ [p]) wholePages_nil
        rwa [flatten_append _ [p], flatten_singleton, List.append_nil] at read
      have same := headerPackets_forwarded complete forwarded
      rw [finished, List.take_length, whole, nothing, List.append_nil, audioPages_concat, owed,
        pending]
      congr 1
      rw [← split] at same
      by_cases header : b.pendingHeader = true
      · rw [if_pos header] at kind
        rw [if_pos header, if_pos (same.mpr kind.2)]
      · rw [if_neg header] at kind
        rw [if_neg header, if_neg (by omega)]
        rfl
    · have same : owed (b.advance p c n) = owed b := by
        simp only [owed, advance, if_neg finished]
      rw [same, wholePages_flatten _ (wholePages_cut p (by omega))]

theorem taken_isPrefix {b : Bridge} (h : Tracking pages b) : b.received <+: pages :=
  ⟨b.queue, h.whole⟩

variable {sent : List UInt8}

/-- Header bytes from the cache, or a part of them, are no audio. -/
theorem gotInFull_cache {b : Bridge} (h : Tracking pages b) (part : sent <+: b.headers.bytes) :
    gotInFull (b.newConnection sent) = [] := by
  obtain ⟨cached, header, bytes⟩ := h.cached
  rw [bytes] at part
  obtain ⟨whole, inside, read⟩ := take_flatten cached sent.length
  have same : sent = (flatten cached).take sent.length := List.prefix_iff_eq_take.mp part
  rw [← same] at read
  change audioPages (wholePages sent) = []
  rw [read]
  exact audioPages_header (inside.trans header)

theorem newConnection_next {b : Bridge} (h : Running pages b) (sent : List UInt8) :
    (b.newConnection sent).next ≤ b.received.length ∧
      (b.stream ≠ [] → b.streamStart < (b.newConnection sent).next) := by
  have length := length_stream_le b
  refine ⟨Nat.sub_le _ _, ?_⟩
  intro inside
  have filled := List.length_pos_iff.mpr inside
  simp only [newConnection, streamStart]
  cases pending : b.pending with
  | none =>
    simp only [Option.isSome_none, Bool.false_eq_true, if_false]
    omega
  | some p =>
    obtain ⟨-, -, front, nonempty, last, -⟩ := h.holding p pending
    have front_some := List.length_pos_iff.mpr nonempty
    have total := congrArg List.length last
    rw [List.length_append, List.length_singleton] at total
    simp only [Option.isSome_some, if_true]
    omega

/-- The invariant for one stream of the pages. -/
structure Delivering (pages before stream : List Page) (b : Bridge) : Prop where
  running : Running pages b
  steady : Steady b
  progress : Progress before stream b.received.length (delivered before stream b) (owed b)

variable {pages before stream after : List Page} {b : Bridge}

theorem loading_delivering (h : Delivering pages before stream b) (nothing : b.received = [])
    (text : Text) : Delivering pages before stream (b.startLoading text) := by
  have noStream : (b.startLoading text).stream = [] := by
    change current Page.isBos b.received = []
    rw [nothing]
    rfl
  have same : (b.startLoading text).connections = b.connections := by
    simp [startLoading, closeClient, connections]
  refine ⟨startLoading_running h.running text, ⟨fun _ => noStream, ?_, ?_⟩, ?_⟩
  · intro c hc
    cases hc
  · rw [same]
    exact h.steady.bounded
  · have absent : b.received.length = 0 := by rw [nothing]; rfl
    have early := h.progress.early (by omega)
    refine ⟨fun _ => ?_, fun begun => ?_, fun late => ?_⟩
    · rw [delivered, same]
      exact early
    · exact absurd (show before.length < b.received.length from begun) (by omega)
    · exact absurd (show _ < b.received.length from late) (by omega)

theorem delivered_accepted (h : Tracking pages b) (part : sent <+: b.headers.bytes)
    (conns : List Connection) :
    gotBy before stream (conns ++ [b.newConnection sent]) = gotBy before stream conns := by
  rw [gotBy_append, gotBy_nothing before stream (gotInFull_cache h part), List.append_nil]

section

variable (h : Delivering pages before stream b)
include h

theorem replayFailed_delivering (noClient : b.client = none) (part : sent <+: b.headers.bytes) :
    Delivering pages before stream (b.failReplay sent) := by
  have conns : (b.failReplay sent).connections = b.connections ++ [b.newConnection sent] := by
    simp [failReplay, connections, noClient]
  refine ⟨failReplay_running h.running part, ⟨h.steady.drained, h.steady.attached, ?_⟩, ?_⟩
  · rw [conns]
    intro c hc
    rcases List.mem_append.mp hc with old | new
    · exact h.steady.bounded c old
    · rw [List.mem_singleton.mp new]
      exact (newConnection_next h.running sent).1
  · rw [delivered, conns, delivered_accepted h.running.tracking part]
    exact h.progress

theorem replayed_delivering (noClient : b.client = none) :
    Delivering pages before stream b.replay := by
  have part := List.prefix_refl b.headers.bytes
  have conns : b.replay.connections = b.connections ++ [b.newConnection b.headers.bytes] := by
    simp [replay, connections, noClient]
  refine ⟨replay_running h.running noClient, ⟨h.steady.drained, ?_, ?_⟩, ?_⟩
  · intro c hc
    cases hc
    exact (newConnection_next h.running b.headers.bytes).2
  · rw [conns]
    intro c hc
    rcases List.mem_append.mp hc with old | new
    · exact h.steady.bounded c old
    · rw [List.mem_singleton.mp new]
      exact (newConnection_next h.running b.headers.bytes).1
  · rw [delivered, conns, delivered_accepted h.running.tracking part]
    exact h.progress

theorem disconnected_delivering (pending : b.pending = some p) :
    Delivering pages before stream b.disconnect := by
  have same : b.disconnect.connections = b.connections := by
    simp [disconnect, closeClient, connections]
  have owes : owed b.disconnect = owed b := by
    simp only [owed, disconnect]
    change (if b.pendingHeader = true then _ else _) = _
    split
    · rfl
    · rfl
  refine ⟨disconnect_running h.running pending, ⟨h.steady.drained, ?_, ?_⟩, ?_⟩
  · intro c hc
    cases hc
  · rw [same]
    exact h.steady.bounded
  · rw [delivered, same, owes]
    exact h.progress

end

theorem discarded_delivering (cut : Cut Page.isBos before stream after pages)
    (h : Delivering pages before stream b) {rest : List Page} (noPending : b.pending = none)
    (queue : b.queue = p :: rest) (discards : b.discardUntilBos = true) (inside : p.isBos = false) :
    Delivering pages before stream (b.discardPage p rest) := by
  have running := discardPage_running h.running noPending queue discards inside
  have absent : (b.discardPage p rest).stream = [] := by
    change (b.takePage p rest).stream = []
    rw [stream_takePage, h.steady.drained discards, extend, if_neg (by simp [inside])]
    rfl
  have early := cut_before cut (taken_isPrefix running.tracking) absent
  have length : (b.discardPage p rest).received.length = b.received.length + 1 := by
    simp [discardPage, takePage]
  have nothing := h.progress.early (by omega)
  refine ⟨running, ⟨fun _ => absent, ?_, ?_⟩, ⟨fun _ => nothing, ?_, ?_⟩⟩
  · intro c _ filled
    exact absurd absent filled
  · intro c hc
    have bound := h.steady.bounded c hc
    omega
  · intro begun
    omega
  · intro late
    omega

theorem kept_owed (h : Tracking pages b) (rest : List Page) (noPending : b.pending = none)
    (wanted : b.discardUntilBos = true → p.isBos = true) (headers : Headers) (generation : Nat)
    (marker : Option (Nat × Nat)) :
    owed (keptPage b p rest headers generation marker) = nextOwed b.received p := by
  by_cases bos : p.isBos = true
  · rw [keptPage, keepPage_bos rest bos, nextOwed, if_pos bos, owed]
    split <;> rfl
  · have inside : p.isBos = false := by simpa using bos
    have steady : b.discardUntilBos = false := by simpa [inside] using wanted
    have packets : b.headers.packets = headerPackets (current Page.isBos b.received) :=
      (h.follows steady).packets_eq
    rw [keptPage, nextOwed, if_neg bos, ← packets, inside, Bool.false_or]
    simp only [keepPage, beginStream, if_neg bos, owed]
    by_cases few : b.headers.packets < 3
    · rw [if_pos few]
      split
      · simp [few]
      · simp [takePage, noPending]
    · rw [if_neg few]
      simp [few]

theorem kept_delivering (cut : Cut Page.isBos before stream after pages)
    (h : Delivering pages before stream b) {rest : List Page} {headers : Headers} {generation : Nat}
    {marker : Option (Nat × Nat)} (noPending : b.pending = none)
    (wanted : b.discardUntilBos = true → p.isBos = true)
    (running : Running pages (keptPage b p rest headers generation marker)) :
    Delivering pages before stream (keptPage b p rest headers generation marker) := by
  have owes := kept_owed h.running.tracking rest noPending wanted headers generation marker
  obtain ⟨received, conns, discards, sameClient, noClient, -⟩ :=
    keptPage_spec b p rest headers generation marker
  generalize keptPage b p rest headers generation marker = b' at *
  have length : b'.received.length = b.received.length + 1 := by simp [received]
  have nothing : owed b = [] := by simp [owed, noPending]
  refine ⟨running, ⟨?_, ?_, ?_⟩, ?_⟩
  · intro still
    obtain ⟨before_p, inside⟩ := discards still
    rw [wanted before_p] at inside
    cases inside
  · intro c hc filled
    by_cases bos : p.isBos = true
    · rw [noClient bos] at hc
      cases hc
    · have inside : p.isBos = false := by simpa using bos
      rw [sameClient inside] at hc
      have stream_eq : b'.stream = extend Page.isBos b.stream p := by
        rw [Bridge.stream, received]
        exact current_concat ..
      have begun : b.stream ≠ [] := by
        intro absent
        rw [stream_eq, absent, extend, if_neg bos] at filled
        exact filled rfl
      have attached := h.steady.attached c hc begun
      rw [extend, if_neg bos] at stream_eq
      have longer : b'.stream.length = b.stream.length + 1 := by simp [stream_eq, begun]
      simp only [streamStart] at attached ⊢
      omega
  · rw [conns]
    intro c hc
    have bound := h.steady.bounded c hc
    omega
  · have part : b.received ++ [p] <+: pages := by
      rw [← received]
      exact taken_isPrefix running.tracking
    have progress := h.progress
    rw [nothing] at progress
    rw [delivered, conns, owes, received]
    exact progress_take cut part progress

theorem gotBy_client (before stream : List Page) (c : Connection) :
    gotBy before stream [c] = if ofStream before stream c then gotInFull c else [] := by
  simp only [gotBy, List.filter_cons, List.filter_nil]
  split <;> simp

/-- The client of a bridge that is in the stream is one of the clients of the stream. -/
theorem ofStream_client (cut : Cut Page.isBos before stream after pages)
    (h : Delivering pages before stream b) (client : b.client = some c) :
    (b.received.length ≤ before.length → ofStream before stream c = false) ∧
    (before.length < b.received.length → b.received.length ≤ before.length + stream.length →
      ofStream before stream c = true) ∧
    (before.length + stream.length < b.received.length → ofStream before stream c = false) := by
  have bound := h.steady.bounded c (by simp [connections, client])
  have part := taken_isPrefix h.running.tracking
  have attached := h.steady.attached c client
  simp only [ofStream, Bool.and_eq_true, Bool.and_eq_false_iff, decide_eq_true_eq,
    decide_eq_false_iff_not]
  refine ⟨fun early => Or.inl (by omega), fun begun inside => ?_, fun late => Or.inr ?_⟩
  · have stream_eq : b.stream = _ := cut_within cut part begun inside
    have length := congrArg List.length stream_eq
    rw [List.length_take] at length
    have filled : b.stream ≠ [] := List.ne_nil_of_length_pos (by omega)
    have start := attached filled
    simp only [streamStart] at start
    omega
  · have beyond : _ + b.stream.length ≤ _ := cut_beyond cut part late
    by_cases none : b.stream = []
    · have short := cut_before cut part none
      omega
    · have start := attached none
      simp only [streamStart] at start
      omega

theorem wrote_delivering (cut : Cut Page.isBos before stream after pages)
    (h : Delivering pages before stream b) (pending : b.pending = some p)
    (client : b.client = some c) (n : Nat) : Delivering pages before stream (b.advance p c n) := by
  obtain ⟨c', client', next, got⟩ := advance_got h.running pending client n
  obtain ⟨received, closed, discards, -⟩ := advance_frame b p c n
  obtain ⟨early, inside, late⟩ := ofStream_client cut h client
  have running := advance_running h.running pending client n
  generalize b.advance p c n = b' at *
  have sameStream : b'.stream = b.stream := by rw [Bridge.stream, received, Bridge.stream]
  have same : ofStream before stream c' = ofStream before stream c := by
    rw [ofStream, ofStream, next]
  have conns : delivered before stream b =
      gotBy before stream b.closed ++ if ofStream before stream c then gotInFull c else [] := by
    rw [delivered, connections, client, Option.toList_some, gotBy_append, gotBy_client]
  have conns' : delivered before stream b' =
      gotBy before stream b.closed ++ if ofStream before stream c then gotInFull c' else [] := by
    rw [delivered, connections, client', closed, Option.toList_some, gotBy_append, gotBy_client,
      same]
  refine ⟨running, ⟨?_, ?_, ?_⟩, ?_⟩
  · rw [discards, sameStream]
    exact h.steady.drained
  · intro d hd filled
    obtain rfl : c' = d := Option.some.inj (client'.symm.trans hd)
    rw [sameStream] at filled
    have attached := h.steady.attached c client filled
    rw [next, streamStart, sameStream, received]
    exact attached
  · intro d hd
    rw [received]
    rcases List.mem_append.mp hd with old | now
    · rw [closed] at old
      exact h.steady.bounded d (List.mem_append_left _ old)
    · rw [client', Option.mem_toList] at now
      rw [← Option.some.inj now, next]
      exact h.steady.bounded c (by simp [connections, client])
  · have progress := h.progress
    rw [received]
    refine ⟨fun before_n => ?_, fun begun within => ?_, fun beyond => ?_⟩
    · have sofar := progress.early before_n
      rw [conns, early before_n] at sofar
      rw [conns', early before_n]
      exact sofar
    · have sofar := progress.inside begun within
      rw [conns, inside begun within, if_pos rfl, List.append_assoc, ← got] at sofar
      rw [conns', inside begun within, if_pos rfl, List.append_assoc]
      exact sofar
    · have sofar := progress.late beyond
      rw [conns, late beyond] at sofar
      rw [conns', late beyond]
      exact sofar

variable {tick : Tick} {b' : Bridge}

theorem accepting_delivering (h : Delivering pages before stream b)
    (accepting : Accepting tick b b') : Delivering pages before stream b' := by
  cases accepting with
  | nobody _ => exact h
  | replayed _ _ noClient => exact replayed_delivering h noClient
  | replayFailed _ _ noClient part _ => exact replayFailed_delivering h noClient part

variable {config : Config}

theorem move_delivering (cut : Cut Page.isBos before stream after pages)
    (h : Delivering pages before stream b) (move : Move config tick b b') :
    Delivering pages before stream b' := by
  have running := move_running h.running move
  cases move with
  | discarded noPending queue discards inside =>
    exact discarded_delivering cut h noPending queue discards inside
  | kept noPending _ wanted _ _ => exact kept_delivering cut h noPending wanted running
  | timed _ =>
    exact ⟨running, ⟨h.steady.drained, h.steady.attached, h.steady.bounded⟩, h.progress⟩
  | wrote pending client _ _ => exact wrote_delivering cut h pending client _
  | disconnected pending _ _ => exact disconnected_delivering h pending

/-- What the clients of a stream got in full is the beginning of its audio; all
of it, once a page behind the stream has been taken. -/
def DeliveredOnce (before stream : List Page) (b : Bridge) : Prop :=
  delivered before stream b <+: audioPages stream ∧
    (before.length + stream.length < b.received.length →
      delivered before stream b = audioPages stream)

theorem deliveredOnce_of_delivering (h : Delivering pages before stream b) :
    DeliveredOnce before stream b :=
  ⟨progress_isPrefix h.progress, h.progress.late⟩

theorem leave_deliveredOnce (cut : Cut Page.isBos before stream after pages)
    (h : Delivering pages before stream b) (leaves : Leave b b') :
    DeliveredOnce before stream b' := by
  cases leaves with
  | left =>
    have once := deliveredOnce_of_delivering h
    exact once
  | @failed p rest headers generation e noPending queue _ =>
    obtain ⟨-, -, -, received, conns, -⟩ := beginStream_frame (b.takePage p rest) p
    have nothing : owed b = [] := by simp [owed, noPending]
    have progress := h.progress
    rw [nothing] at progress
    have part : b.received ++ [p] <+: pages := ⟨rest, whole_takePage h.running.tracking queue⟩
    have next := progress_take cut part progress
    rw [← show _ = b.received ++ [p] from received, delivered, ← show _ = b.connections from conns]
      at next
    exact ⟨progress_isPrefix next, next.late⟩

theorem new_delivering (pages before stream : List Page) (ending : Except ReadError Unit) :
    Delivering pages before stream (new (pages, ending)) := by
  refine ⟨new_running pages ending, ⟨fun _ => rfl, ?_, ?_⟩, ⟨fun _ => rfl, ?_, ?_⟩⟩
  · intro c hc
    cases hc
  · intro c hc
    cases hc
  · intro begun
    exact absurd begun (Nat.not_lt_zero _)
  · intro late
    exact absurd late (Nat.not_lt_zero _)

/-- Between two rounds the marker has been seen, or no page has been taken yet. -/
structure Between (pages before stream : List Page) (marker : Option Text) (b : Bridge) : Prop where
  delivering : Delivering pages before stream b
  seen : b.lastLoading = marker ∨ b.lastLoading = none ∧ b.received = []

/-- Behind the look at the marker it has been seen. -/
structure Within (pages before stream : List Page) (marker : Option Text) (b : Bridge) : Prop where
  delivering : Delivering pages before stream b
  seen : b.lastLoading = marker

variable {marker : Option Text}

theorem checkLoading_within (reads : config.loadingMarker = true → readMarker tick.loading = marker)
    (ignored : config.loadingMarker = false → marker = none)
    (h : Between pages before stream marker b) :
    Within pages before stream marker (b.checkLoading config tick) := by
  rcases checkLoading_cases config tick b with ⟨same, seen⟩ | ⟨text, given, read, new, loads⟩
  · rw [same]
    refine ⟨h.delivering, ?_⟩
    rcases h.seen with already | ⟨absent, -⟩
    · exact already
    · cases hm : marker with
      | none => exact absent
      | some text =>
        have given : config.loadingMarker = true := by
          by_contra notGiven
          rw [ignored (by simpa using notGiven)] at hm
          cases hm
        exact seen text given (by rw [reads given, hm])
  · have marker_eq : marker = some text := (reads given).symm.trans read
    rw [loads]
    rcases h.seen with already | ⟨-, nothing⟩
    · exact absurd (already.trans marker_eq) new
    · exact ⟨loading_delivering h.delivering nothing text, marker_eq.symm⟩

theorem accepting_within (h : Within pages before stream marker b) (accepting : Accepting tick b b')
    :
    Within pages before stream marker b' :=
  ⟨accepting_delivering h.delivering accepting, (accepting_lastLoading tick accepting).trans h.seen⟩

theorem move_within (cut : Cut Page.isBos before stream after pages)
    (h : Within pages before stream marker b) (move : Move config tick b b') :
    Within pages before stream marker b' :=
  ⟨move_delivering cut h.delivering move, (move_lastLoading config tick move).trans h.seen⟩

/-- With a loading marker that does not change, every audio page of a stream is
written in full to one client, in order, and before the next stream is begun. -/
theorem audio_delivered_once (config : Config) (ending : Except ReadError Unit)
    (marker : Option Text) (cut : Cut Page.isBos before stream after pages) (ticks : List Tick)
    (steady : ∀ t ∈ ticks, config.loadingMarker = true → readMarker t.loading = marker) :
    DeliveredOnce before stream (run (step config) (new (pages, ending)) ticks) := by
  let seen := if config.loadingMarker then marker else none
  have delivering := new_delivering pages before stream ending
  have start : Kept (Between pages before stream seen) (DeliveredOnce before stream)
      (new (pages, ending)) :=
    ⟨fun _ => ⟨delivering, Or.inr ⟨rfl, rfl⟩⟩, deliveredOnce_of_delivering delivering⟩
  have ignored : config.loadingMarker = false → seen = none := by
    intro notGiven
    simp [seen, notGiven]
  have good := along_of_forall (step config) (new (pages, ending)) steady
  have kept := run_invariant (fun b tick kept reads => by
    have reads' : config.loadingMarker = true → readMarker tick.loading = seen := by
      intro given
      simp only [seen, if_pos given]
      exact reads given
    exact step_kept config tick b (fun h => checkLoading_within reads' ignored h)
      (fun _ _ h accept => accepting_within h accept) (fun _ _ h move => move_within cut h move)
      (fun _ h => ⟨h.delivering, Or.inl h.seen⟩)
      (fun _ h => deliveredOnce_of_delivering h.delivering)
      (fun _ _ h leaves => leave_deliveredOnce cut h.delivering leaves) kept.between
      (fun _ => kept.always)) start good
  exact kept.always

/-- A client goes away within the audio page, another one gets it, and the next stream begins. -/
def reconnect : List Tick :=
  List.replicate 4 { quiet with ready := true } ++
    [{ quiet with accept := .socket player, write := .ok 2 }, { quiet with write := .error .other },
      { quiet with accept := .socket player, write := .ok 30 }, { quiet with ready := true }]

theorem reconnect_delivered_once :
    let b := run (step unpaced) (new (shortStream ++ [identification], .ok ())) reconnect
    b.connections.length = 2 ∧ b.received.length = 5 ∧ DeliveredOnce [] shortStream b := by
  have cut : Cut Page.isBos [] shortStream [identification] (shortStream ++ [identification]) :=
    ⟨rfl, ⟨identification, [comment, setup, audio], rfl, by decide, by decide⟩, by
      rintro p ⟨⟩
      decide⟩
  refine ⟨by decide +kernel, by decide +kernel, ?_⟩
  exact audio_delivered_once unpaced (.ok ()) none cut reconnect (by decide)

end Delivery
