import SqueezeboxConnect.Runs
import SqueezeboxConnect.BridgeMoves

/-!
# What one client receives

The bytes written on one connection are header pages from the cache, followed
by pages of the same logical stream in the order of the producer, and only the
last page can be cut short. The invariant says where in its stream the bridge
is: which pages have been dealt with, and how much of the pending one has been
written.
-/

namespace ClientStream

open Runs Streams OggPage HeaderTracker BridgeLoop Bridge BridgeMoves Words

/-- The bytes on a connection: cached header pages of one stream, and then the
pages that come next. With all header pages in the cache, the pages that were
dealt with before the connection are skipped. -/
def Served (pages : List Page) (c : Connection) : Prop :=
  c.sent = [] ∨ ∃ before stream after cached, Cut Page.isBos before stream after pages ∧
    cached <+: headerPages stream ∧ c.cache = flatten cached ∧
    (c.sent <+: c.cache ∨ ∃ skipped forwarded rest,
      stream = cached ++ skipped ++ forwarded ++ rest ∧
      c.next = before.length + cached.length + skipped.length ∧
      (skipped = [] ∨ cached = headerPages stream) ∧ c.sent <+: flatten (cached ++ forwarded))

/-- The pages of the stream that have been dealt with: all but the pending one. -/
def settled (b : Bridge) : List Page := if b.pending.isSome then b.stream.dropLast else b.stream

def partWritten (b : Bridge) : List UInt8 := b.pending.elim [] fun p => p.bytes.take b.offset

def Placed (b : Bridge) (c : Connection) (cached : List Page) : Prop :=
  ∃ skipped forwarded, settled b = cached ++ skipped ++ forwarded ∧
    c.next = b.streamStart + cached.length + skipped.length ∧
    (skipped = [] ∨ cached = headerPages b.stream ∧ 3 ≤ headerPackets b.stream) ∧
    c.sent = flatten (cached ++ forwarded) ++ partWritten b

/-- A client that came while pages are discarded gets nothing but the cache. -/
def Feeds (b : Bridge) (c : Connection) : Prop :=
  ∃ cached, cached <+: headerPages b.stream ∧ c.cache = flatten cached ∧
    if b.discardUntilBos then c.sent = c.cache else Placed b c cached

/-- The pending page is the last one taken; a header page is only kept for a client. -/
def Holding (b : Bridge) (p : Page) : Prop :=
  b.discardUntilBos = false ∧ b.offset < p.bytes.length ∧ ∃ front, front ≠ [] ∧
    b.stream = front ++ [p] ∧
    if b.pendingHeader then b.client.isSome = true ∧ headerPackets front < 3
    else 3 ≤ headerPackets front

/-- What holds of the pages and the cache. -/
structure Tracking (pages : List Page) (b : Bridge) : Prop where
  whole : b.received ++ b.queue = pages
  follows : b.discardUntilBos = false → Follows b.stream b.headers
  cached : ∃ cached, cached <+: headerPages b.stream ∧ b.headers.bytes = flatten cached

structure Running (pages : List Page) (b : Bridge) : Prop where
  tracking : Tracking pages b
  holding : ∀ p, b.pending = some p → Holding b p
  idle : b.pending = none → b.offset = 0
  unserved : b.client = none → b.offset = 0
  feeds : ∀ c, b.client = some c → Feeds b c
  served : ∀ c ∈ b.closed, Served pages c

def AllServed (pages : List Page) (b : Bridge) : Prop := ∀ c ∈ b.connections, Served pages c

theorem length_stream_le (b : Bridge) : b.stream.length ≤ b.received.length :=
  (current_suffix Page.isBos b.received).length_le

variable {pages : List Page} {b : Bridge} {c : Connection} {p : Page}

theorem settled_append_pending (h : Running pages b) :
    b.stream = settled b ++ b.pending.toList := by
  cases hp : b.pending with
  | none => simp [settled, hp]
  | some p =>
    obtain ⟨-, -, front, -, split, -⟩ := h.holding p hp
    simp [settled, hp, split]

theorem partWritten_isPrefix (b : Bridge) : partWritten b <+: flatten b.pending.toList := by
  cases hp : b.pending with
  | none => simp [partWritten, hp]
  | some p =>
    simp only [partWritten, hp, Option.elim_some, Option.toList_some, flatten_singleton]
    exact List.take_prefix _ _

/-- The place of the stream the bridge is in within all pages. -/
theorem stream_place (h : Tracking pages b) (inside : b.stream ≠ []) :
    ∃ before more after, Cut Page.isBos before (b.stream ++ more) after pages ∧
      before.length = b.streamStart := by
  obtain ⟨before, more, after, split, hqueue, isStream, next⟩ :=
    current_in_whole Page.isBos inside b.queue
  refine ⟨before, more, after, ⟨?_, isStream, next⟩, ?_⟩
  · rw [← h.whole, hqueue]
    conv => lhs; rw [split]
    simp only [List.append_assoc]
    rfl
  · have length := congrArg List.length split
    rw [List.length_append] at length
    simp only [streamStart, stream]
    omega

theorem served_of_cache (h : Tracking pages b) {cached : List Page}
    (header : cached <+: headerPages b.stream) (cache : c.cache = flatten cached)
    (part : c.sent <+: c.cache) : Served pages c := by
  by_cases inside : b.stream = []
  · rw [inside] at header
    have nothing : cached = [] := List.prefix_nil.mp header
    rw [cache, nothing] at part
    exact Or.inl (List.prefix_nil.mp part)
  · obtain ⟨before, more, after, cut, -⟩ := stream_place h inside
    exact Or.inr ⟨before, _, after, cached, cut,
      header.trans (headerPages_isPrefix b.stream more), cache, Or.inl part⟩

theorem served_of_feeds (h : Running pages b) (feeds : Feeds b c) : Served pages c := by
  obtain ⟨cached, header, cache, place⟩ := feeds
  by_cases discards : b.discardUntilBos = true
  · rw [if_pos discards] at place
    exact served_of_cache h.tracking header cache (place ▸ List.prefix_refl _)
  · rw [if_neg discards] at place
    obtain ⟨skipped, forwarded, split, next, complete, sent⟩ := place
    have whole := settled_append_pending h
    have part : c.sent <+: flatten (cached ++ (forwarded ++ b.pending.toList)) := by
      rw [sent, ← List.append_assoc, flatten_append _ b.pending.toList]
      exact (List.prefix_append_right_inj _).mpr (partWritten_isPrefix b)
    by_cases inside : b.stream = []
    · have nothing : cached ++ skipped ++ forwarded ++ b.pending.toList = [] := by
        rw [← split, ← whole, inside]
      simp only [List.append_eq_nil_iff] at nothing
      rw [nothing.1.1.1, nothing.1.2, nothing.2] at part
      exact Or.inl (List.prefix_nil.mp part)
    · obtain ⟨before, more, after, cut, length⟩ := stream_place h.tracking inside
      refine Or.inr ⟨before, _, after, cached, cut,
        header.trans (headerPages_isPrefix b.stream more), cache, Or.inr
        ⟨skipped, forwarded ++ b.pending.toList, more, ?_, by rw [next, length], ?_, part⟩⟩
      · conv => lhs; rw [whole, split]
        simp only [List.append_assoc]
      · rcases complete with absent | ⟨all, full⟩
        · exact Or.inl absent
        · exact Or.inr (by rw [all, headerPages_complete full])

theorem allServed_of_running (h : Running pages b) : AllServed pages b := by
  intro c hc
  rcases List.mem_append.mp hc with old | now
  · exact h.served c old
  · exact served_of_feeds h (h.feeds c (by simpa using now))

variable {pages : List Page} {b : Bridge}

theorem startLoading_running (h : Running pages b) (text : Text) :
    Running pages (b.startLoading text) where
  tracking := ⟨h.tracking.whole, fun steady => (by cases steady), h.tracking.cached⟩
  holding := fun p hp => by cases hp
  idle := fun _ => rfl
  unserved := fun _ => rfl
  feeds := fun c hc => by cases hc
  served := allServed_of_running h

theorem failReplay_running (h : Running pages b) {sent : List UInt8}
    (part : sent <+: b.headers.bytes) : Running pages (b.failReplay sent) where
  tracking := ⟨h.tracking.whole, h.tracking.follows, h.tracking.cached⟩
  holding := h.holding
  idle := h.idle
  unserved := h.unserved
  feeds := h.feeds
  served := by
    intro c hc
    rcases List.mem_append.mp hc with old | new
    · exact h.served c old
    · rw [List.mem_singleton.mp new]
      obtain ⟨cached, header, bytes⟩ := h.tracking.cached
      exact served_of_cache h.tracking header bytes part

theorem replay_placed (h : Running pages b) (noClient : b.client = none)
    (steady : b.discardUntilBos = false) :
    Placed b.replay (b.newConnection b.headers.bytes) (headerPages b.stream) := by
  have follows := h.tracking.follows steady
  have length := length_stream_le b
  have split := header_append_audio b.stream
  have nothing : partWritten b.replay = [] := by
    have offset : b.replay.offset = 0 := h.unserved noClient
    rw [partWritten, offset]
    cases b.replay.pending <;> rfl
  have sent : (b.newConnection b.headers.bytes).sent =
      flatten (headerPages b.stream ++ []) ++ partWritten b.replay := by
    rw [nothing, List.append_nil, List.append_nil]
    exact follows.bytes_eq
  cases hp : b.pending with
  | none =>
    have dealt : settled b.replay = b.stream := by
      rw [settled]
      exact if_neg (by simp [replay, hp])
    refine ⟨audioPages b.stream, [], ?_, ?_, ?_, sent⟩
    · rw [dealt, List.append_nil, split]
    · have whole := congrArg List.length split
      rw [List.length_append] at whole
      change b.received.length - (if b.pending.isSome then 1 else 0) =
        b.received.length - b.stream.length + _ + _
      rw [hp]
      simp only [Option.isSome_none, Bool.false_eq_true, if_false]
      omega
    · by_cases complete : 3 ≤ headerPackets b.stream
      · exact Or.inr ⟨rfl, complete⟩
      · exact Or.inl (body_of_total_lt _ _ (by exact Nat.lt_of_not_le complete))
  | some p =>
    obtain ⟨-, -, front, -, last, kind⟩ := h.holding p hp
    have complete : 3 ≤ headerPackets front := by
      by_cases header : b.pendingHeader = true
      · rw [if_pos header, noClient] at kind
        cases kind.1
      · rwa [if_neg header] at kind
    have same : headerPages b.stream = headerPages front := by
      rw [last, headerPages_complete complete]
    have dealt : settled b.replay = front := by
      rw [settled]
      change (if b.pending.isSome then b.stream.dropLast else b.stream) = front
      rw [hp, last]
      simp
    refine ⟨audioPages front, [], ?_, ?_, Or.inr ⟨rfl, ?_⟩, sent⟩
    · rw [dealt, same, List.append_nil, header_append_audio]
    · have whole := congrArg List.length (header_append_audio front)
      have total := congrArg List.length last
      rw [List.length_append] at whole total
      rw [same]
      change b.received.length - (if b.pending.isSome then 1 else 0) =
        b.received.length - b.stream.length + _ + _
      rw [hp]
      simp only [Option.isSome_some, if_true, List.length_singleton] at total ⊢
      omega
    · change 3 ≤ headerPackets b.stream
      rw [last]
      exact headerPackets_complete complete [p]

theorem replay_running (h : Running pages b) (noClient : b.client = none) :
    Running pages b.replay where
  tracking := ⟨h.tracking.whole, h.tracking.follows, h.tracking.cached⟩
  holding := by
    intro p hp
    obtain ⟨steady, offset, front, nonempty, last, kind⟩ := h.holding p hp
    refine ⟨steady, offset, front, nonempty, last, ?_⟩
    by_cases header : b.pendingHeader = true
    · rw [if_pos header, noClient] at kind
      cases kind.1
    · rw [if_neg header] at kind
      exact (if_neg header).mpr kind
  idle := h.idle
  unserved := fun nothing => by cases nothing
  feeds := by
    intro c hc
    obtain rfl : b.newConnection b.headers.bytes = c := Option.some.inj hc
    by_cases discards : b.discardUntilBos = true
    · obtain ⟨cached, header, bytes⟩ := h.tracking.cached
      refine ⟨cached, header, bytes, ?_⟩
      rw [if_pos (by exact discards)]
      rfl
    · have steady : b.discardUntilBos = false := by simpa using discards
      refine ⟨headerPages b.stream, List.prefix_refl _, (h.tracking.follows steady).bytes_eq, ?_⟩
      rw [if_neg (by exact discards)]
      exact replay_placed h noClient steady
  served := h.served

theorem stream_takePage (p : Page) (rest : List Page) :
    (b.takePage p rest).stream = extend Page.isBos b.stream p :=
  current_concat Page.isBos b.received p

variable {rest : List Page}

theorem whole_takePage (h : Tracking pages b) (queue : b.queue = p :: rest) :
    b.received ++ [p] ++ rest = pages := by
  rw [← h.whole, queue]
  simp

theorem headerPages_extend (stream : List Page) (inside : p.isBos = false) :
    headerPages stream <+: headerPages (extend Page.isBos stream p) := by
  rw [extend, inside]
  by_cases none : stream = []
  · simp [none]
  · simpa [none] using headerPages_isPrefix stream [p]

theorem discardPage_running (h : Running pages b) (noPending : b.pending = none)
    (queue : b.queue = p :: rest) (discards : b.discardUntilBos = true) (inside : p.isBos = false) :
    Running pages (b.discardPage p rest) where
  tracking := by
    obtain ⟨cached, header, bytes⟩ := h.tracking.cached
    refine ⟨whole_takePage h.tracking queue, ?_, cached, ?_, bytes⟩
    · intro steady
      rw [show (b.discardPage p rest).discardUntilBos = true from discards] at steady
      cases steady
    · change cached <+: headerPages (b.takePage p rest).stream
      rw [stream_takePage]
      exact header.trans (headerPages_extend b.stream inside)
  holding := by
    intro q hq
    rw [show (b.discardPage p rest).pending = none from noPending] at hq
    cases hq
  idle := h.idle
  unserved := h.unserved
  feeds := by
    intro c hc
    obtain ⟨cached, header, cache, place⟩ := h.feeds c hc
    rw [if_pos discards] at place
    refine ⟨cached, ?_, cache, (if_pos (by exact discards)).mpr place⟩
    change cached <+: headerPages (b.takePage p rest).stream
    rw [stream_takePage]
    exact header.trans (headerPages_extend b.stream inside)
  served := h.served

/-- The state after a BOS page: nobody is connected, and nothing is pending. -/
theorem keepPage_bos (rest : List Page) (bos : p.isBos = true) (headers : Headers)
    (generation : Nat) (marker : Option (Nat × Nat)) (isHeader : Bool) :
    keepPage { (b.takePage p rest).beginStream p with
      headers := headers, generation := generation, streamMarker := marker } p
      (p.isBos || isHeader) =
    { (b.takePage p rest).closeClient with
      discardUntilBos := false, timeline := none, pending := none, headers := headers
      generation := generation, streamMarker := marker } := by
  simp [keepPage, beginStream, closeClient, bos]

theorem begin_running (h : Running pages b) {headers : Headers} (noPending : b.pending = none)
    (queue : b.queue = p :: rest) (bos : p.isBos = true)
    (observed : b.headers.observe p = .ok headers) (generation : Nat) (marker : Option (Nat × Nat))
    :
    Running pages { (b.takePage p rest).closeClient with
      discardUntilBos := false, timeline := none, pending := none, headers := headers
      generation := generation, streamMarker := marker } where
  tracking := by
    have follows := observe_bos bos observed
    have stream : (b.takePage p rest).stream = [p] := current_mark Page.isBos b.received bos
    refine ⟨whole_takePage h.tracking queue, fun _ => ?_, headerPages [p], ?_, follows.bytes_eq⟩
    · change Follows (b.takePage p rest).stream headers
      rw [stream]
      exact follows
    · have whole : headerPages (b.takePage p rest).stream = headerPages [p] := by rw [stream]
      exact whole ▸ List.prefix_refl _
  holding := fun q hq => by cases hq
  idle := fun _ => h.idle noPending
  unserved := fun _ => h.idle noPending
  feeds := fun c hc => by cases hc
  served := by
    have all := allServed_of_running h
    exact all

variable {b' : Bridge}

theorem next_feeds (feeds : Feeds b c) (steady : b.discardUntilBos = false)
    (steady' : b'.discardUntilBos = false) (stream : b'.stream = b.stream ++ [p])
    (start : b'.streamStart = b.streamStart) (dealt : settled b' = settled b)
    (written : partWritten b' = partWritten b) : Feeds b' c := by
  obtain ⟨cached, header, cache, place⟩ := feeds
  rw [steady] at place
  obtain ⟨skipped, forwarded, split, next, complete, sent⟩ := place
  refine ⟨cached, ?_, cache, ?_⟩
  · rw [stream]
    exact header.trans (headerPages_isPrefix b.stream [p])
  · rw [steady']
    refine ⟨skipped, forwarded, dealt.trans split, by rw [start]; exact next, ?_,
      by rw [written]; exact sent⟩
    rcases complete with nothing | ⟨all, full⟩
    · exact Or.inl nothing
    · refine Or.inr ⟨?_, ?_⟩
      · rw [stream, headerPages_complete full, all]
      · rw [stream]
        exact headerPackets_complete full [p]

theorem next_running (h : Running pages b) {headers : Headers} (noPending : b.pending = none)
    (queue : b.queue = p :: rest) (inside : p.isBos = false) (steady : b.discardUntilBos = false)
    (observed : b.headers.observe p = .ok headers) (generation : Nat) (marker : Option (Nat × Nat))
    :
    Running pages (keepPage { b.takePage p rest with
      headers := headers, generation := generation, streamMarker := marker } p
      (b.headers.packets < 3)) := by
  obtain ⟨begun, follows⟩ := observe_next (h.tracking.follows steady) inside observed
  have stream : (b.takePage p rest).stream = b.stream ++ [p] :=
    current_unmarked Page.isBos begun inside
  have start : (b.takePage p rest).streamStart = b.streamStart := by
    rw [streamStart, stream, streamStart]
    simp only [takePage, List.length_append, List.length_singleton]
    omega
  have tracking : ∀ b' : Bridge, b'.received = b.received ++ [p] → b'.queue = rest →
      b'.headers = headers → Tracking pages b' := by
    intro b' received queue' headers'
    have stream' : b'.stream = b.stream ++ [p] := by
      rw [← stream]
      simp only [Bridge.stream, received]
      rfl
    refine ⟨?_, fun _ => ?_, headerPages b'.stream, List.prefix_refl _, ?_⟩
    · rw [received, queue']
      exact whole_takePage h.tracking queue
    · rw [stream', headers']
      exact follows
    · rw [stream', headers']
      exact follows.bytes_eq
  have packets := (h.tracking.follows steady).packets_eq
  rw [keepPage]
  split
  · rename_i kept
    refine ⟨tracking _ rfl rfl rfl, ?_, fun _ => rfl, fun _ => rfl, ?_, h.served⟩
    · intro q hq
      cases hq
      refine ⟨steady, p.nonempty, b.stream, begun, stream, ?_⟩
      by_cases few : b.headers.packets < 3
      · rw [if_pos (by simpa using few)]
        refine ⟨?_, by omega⟩
        simpa [few] using kept
      · rw [if_neg (by simpa using few)]
        omega
    · intro c hc
      refine next_feeds (h.feeds c hc) steady steady stream start ?_ ?_
      · rw [settled, settled, noPending]
        change (b.takePage p rest).stream.dropLast = _
        rw [stream]
        simp
      · rw [partWritten, partWritten, noPending]
        rfl
  · rename_i dropped
    have noClient : b.client = none := by
      simp only [Bool.or_eq_true, not_or, Bool.not_eq_true] at dropped
      simpa [takePage] using dropped.1
    refine ⟨tracking _ rfl rfl rfl, ?_, h.idle, h.unserved, ?_, h.served⟩
    · intro q hq
      rw [show (b.takePage p rest).pending = none from noPending] at hq
      cases hq
    · intro c hc
      rw [show (b.takePage p rest).client = none from noClient] at hc
      cases hc

theorem take_append_write (bytes : List UInt8) (offset n : Nat) :
    bytes.take offset ++ (bytes.drop offset).take n =
      bytes.take (offset + ((bytes.drop offset).take n).length) := by
  have cut : (bytes.drop offset).take n =
      (bytes.drop offset).take ((bytes.drop offset).take n).length := by
    rw [List.length_take]
    exact List.take_eq_take_min ..
  rw [List.take_add, ← cut]

theorem wrote_feeds {c' : Connection} {n : Nat} (feeds : Feeds b c)
    (steady : b.discardUntilBos = false) (pending : b.pending = some p) (cache : c'.cache = c.cache)
    (next : c'.next = c.next) (sent : c'.sent = c.sent ++ (p.bytes.drop b.offset).take n)
    (steady' : b'.discardUntilBos = false) (stream : b'.stream = b.stream)
    (start : b'.streamStart = b.streamStart)
    (dealt : ∃ finished, settled b' = settled b ++ finished ∧
      flatten finished ++ partWritten b' = p.bytes.take b.offset ++ (p.bytes.drop b.offset).take n)
    :
    Feeds b' c' := by
  obtain ⟨cached, header, cache_eq, place⟩ := feeds
  rw [steady] at place
  obtain ⟨skipped, forwarded, split, next_eq, complete, sent_eq⟩ := place
  obtain ⟨finished, settled_eq, bytes⟩ := dealt
  refine ⟨cached, by rw [stream]; exact header, cache.trans cache_eq, ?_⟩
  rw [steady']
  refine ⟨skipped, forwarded ++ finished, ?_, ?_, by rw [stream]; exact complete, ?_⟩
  · rw [settled_eq, split, List.append_assoc]
  · rw [next, next_eq, start]
  · have part : partWritten b = p.bytes.take b.offset := by
      rw [partWritten, pending]
      rfl
    rw [sent, sent_eq, part, ← List.append_assoc cached, flatten_append _ finished]
    simp only [List.append_assoc, bytes]

theorem advance_running (h : Running pages b) (pending : b.pending = some p)
    (client : b.client = some c) (n : Nat) : Running pages (b.advance p c n) := by
  obtain ⟨steady, offset, front, nonempty, last, kind⟩ := h.holding p pending
  have feeds := h.feeds c client
  have written := take_append_write p.bytes b.offset n
  have before : settled b = front := by
    rw [settled, pending, last]
    simp
  have bound : ((p.bytes.drop b.offset).take n).length ≤ p.bytes.length - b.offset := by
    rw [List.length_take, List.length_drop]
    omega
  simp only [advance]
  split
  · rename_i finished
    refine ⟨⟨h.tracking.whole, h.tracking.follows, h.tracking.cached⟩, ?_, fun _ => rfl,
      fun _ => rfl, ?_, h.served⟩
    · intro q hq
      cases hq
    · intro c' hc'
      cases hc'
      refine wrote_feeds (n := n) feeds steady pending rfl rfl rfl steady rfl rfl ⟨[p], ?_, ?_⟩
      · rw [before, settled]
        exact last
      · rw [written, finished, List.take_length, flatten_singleton]
        exact List.append_nil _
  · rename_i unfinished
    refine ⟨⟨h.tracking.whole, h.tracking.follows, h.tracking.cached⟩, ?_, ?_, ?_, ?_, h.served⟩
    · intro q hq
      obtain rfl : p = q := Option.some.inj (pending.symm.trans hq)
      refine ⟨steady, by simp only; omega, front, nonempty, last, ?_⟩
      by_cases header : b.pendingHeader = true
      · rw [if_pos header] at kind
        rw [if_pos (by exact header)]
        exact ⟨rfl, kind.2⟩
      · rw [if_neg header] at kind
        rw [if_neg (by exact header)]
        exact kind
    · intro noPending
      cases pending.symm.trans noPending
    · intro noClient
      cases noClient
    · intro c' hc'
      cases hc'
      refine wrote_feeds (n := n) feeds steady pending rfl rfl rfl steady rfl rfl ⟨[], ?_, ?_⟩
      · rw [List.append_nil]
        rfl
      · rw [flatten_nil, List.nil_append, partWritten]
        simp only [pending, Option.elim_some]
        exact written.symm

theorem disconnect_running (h : Running pages b) (pending : b.pending = some p) :
    Running pages b.disconnect where
  tracking := ⟨h.tracking.whole, h.tracking.follows, h.tracking.cached⟩
  holding := by
    intro q hq
    obtain ⟨steady, -, front, nonempty, last, kind⟩ := h.holding p pending
    by_cases header : b.pendingHeader = true
    · simp [disconnect, header] at hq
    · have same : q = p := by
        simpa [disconnect, header, pending, eq_comm] using hq
      rw [if_neg header] at kind
      rw [same]
      exact ⟨steady, p.nonempty, front, nonempty, last, (if_neg (by exact header)).mpr kind⟩
  idle := fun _ => rfl
  unserved := fun _ => rfl
  feeds := fun c hc => by cases hc
  served := allServed_of_running h

theorem checkLoading_running (config : Config) (tick : Tick) (h : Running pages b) :
    Running pages (b.checkLoading config tick) := by
  rcases checkLoading_cases config tick b with ⟨same, -⟩ | ⟨text, -, -, -, new⟩
  · rw [same]
    exact h
  · rw [new]
    exact startLoading_running h text

theorem accepting_running {tick : Tick} (h : Running pages b) (accepting : Accepting tick b b') :
    Running pages b' := by
  cases accepting with
  | nobody _ => exact h
  | replayed _ _ noClient => exact replay_running h noClient
  | replayFailed _ _ _ part _ => exact failReplay_running h part

theorem move_running {config : Config} {tick : Tick} (h : Running pages b)
    (move : Move config tick b b') : Running pages b' := by
  cases move with
  | discarded noPending queue discards inside =>
    exact discardPage_running h noPending queue discards inside
  | @kept p rest headers generation marker noPending queue wanted observed _ =>
    by_cases bos : p.isBos = true
    · rw [keepPage_bos rest bos]
      exact begin_running h noPending queue bos observed generation marker
    · have inside : p.isBos = false := by simpa using bos
      have steady : b.discardUntilBos = false := by
        simpa [inside] using wanted
      have same : (b.takePage p rest).beginStream p = b.takePage p rest := if_neg bos
      rw [same, inside, Bool.false_or]
      exact next_running h noPending queue inside steady observed generation marker
  | timed _ =>
    exact ⟨⟨h.tracking.whole, h.tracking.follows, h.tracking.cached⟩, h.holding, h.idle,
      h.unserved, h.feeds, h.served⟩
  | wrote pending client _ _ => exact advance_running h pending client _
  | disconnected pending _ _ => exact disconnect_running h pending

theorem leave_allServed (h : Running pages b) (leaves : Leave b b') : AllServed pages b' := by
  have all := allServed_of_running h
  cases leaves with
  | left => exact all
  | @failed p rest _ _ _ _ _ _ =>
    obtain ⟨-, -, -, -, conns, -⟩ := beginStream_frame (b.takePage p rest) p
    exact fun c hc => all c (conns ▸ hc)

theorem new_running (pages : List Page) (ending : Except ReadError Unit) :
    Running pages (new (pages, ending)) where
  tracking := ⟨rfl, fun _ => ⟨holds_new none, rfl⟩, [], List.nil_prefix, rfl⟩
  holding := fun p hp => by cases hp
  idle := fun _ => rfl
  unserved := fun _ => rfl
  feeds := fun c hc => by cases hc
  served := fun c hc => by cases hc

/-- Whatever the clients do, each gets a part of one logical stream. -/
theorem connections_served (config : Config) (pages : List Page) (ending : Except ReadError Unit)
    (ticks : List Tick) (c : Connection)
    (accepted : c ∈ (run (step config) (new (pages, ending)) ticks).connections) :
    Served pages c := by
  have start : Kept (Running pages) (AllServed pages) (new (pages, ending)) :=
    ⟨fun _ => new_running pages ending, allServed_of_running (new_running pages ending)⟩
  have kept := run_invariant' (fun b tick kept => step_kept config tick b
    (fun h => checkLoading_running config tick h) (fun _ _ h accept => accepting_running h accept)
    (fun _ _ h move => move_running h move) (fun _ h => h) (fun _ h => allServed_of_running h)
    (fun _ _ h leaves => leave_allServed h leaves) kept.between (fun _ => kept.always)) ticks start
  exact kept.always c accepted

/-- The bytes of a page of the serial number 1 with one packet on it. -/
def pageBytes (flags granule : UInt8) (packet : List UInt8) : List UInt8 :=
  [0x4F, 0x67, 0x67, 0x53, 0, flags, granule, 0, 0, 0, 0, 0, 0, 0, 1, 0, 0, 0, 0, 0, 0, 0, 0, 0, 0,
    0, 1, UInt8.ofNat packet.length] ++ packet

/-- `vorbis` behind a packet type, and a sample rate of 44100 where the first header has it. -/
def headerPacket (type : UInt8) : List UInt8 :=
  [type, 0x76, 0x6F, 0x72, 0x62, 0x69, 0x73, 0, 0, 0, 0, 2, 0x44, 0xAC, 0, 0]

def identification : Page := ⟨pageBytes 2 0 (headerPacket 1), by decide, by decide⟩

def comment : Page := ⟨pageBytes 0 0 (headerPacket 3), by decide, by decide⟩

def setup : Page := ⟨pageBytes 0 0 (headerPacket 5), by decide, by decide⟩

def audio : Page := ⟨pageBytes 0 100 [0x2A, 0x2B], by decide, by decide⟩

def shortStream : List Page := [identification, comment, setup, audio]

def quiet : Tick := ⟨none, .wouldBlock, false, true, 0, 0, .error .wouldBlock⟩

def player : Socket := ⟨true, ascii "GET /spotify.ogg HTTP/1.0\n\n", true, none, true⟩

def unpaced : Config := ⟨false, true, true⟩

/-- A client comes between the second and the third header page and gets two bytes of audio. -/
def tuneIn : List Tick :=
  [{ quiet with ready := true }, { quiet with ready := true },
    { quiet with accept := .socket player },
    { quiet with ready := true, write := .ok 44 }, { quiet with ready := true, write := .ok 2 }]

theorem tuneIn_served :
    ∃ c ∈ (run (step unpaced) (new (shortStream, .ok ())) tuneIn).connections,
      c.sent.length = 134 ∧ Served shortStream c := by
  have connected : (run (step unpaced) (new (shortStream, .ok ())) tuneIn).connections.map
      (fun c => c.sent.length) = [134] := by
    decide +kernel
  obtain ⟨c, hc, sent⟩ := List.mem_map.mp (connected ▸ List.mem_singleton.mpr rfl)
  exact ⟨c, hc, sent, connections_served unpaced shortStream (.ok ()) tuneIn c hc⟩

end ClientStream
