import SqueezeboxConnect.DownloadLedger

/-!
# Runs of a download

The bookkeeping of a whole run: every step of every task keeps the books and
the contents of the output file. The file is handed over when it is complete.
-/

namespace DownloadRuns

open Ledgers AudioRanges AudioFetch DownloadLedger Runs Words

/-- The data is what the file has from the offset on. -/
def Genuine (file : Nat → UInt8) (offset : Nat) (data : Bytes) : Prop :=
  ∀ k b, data[k]? = some b → file (offset + k) = b

/-- A body is genuine and not longer than what is outstanding; a range to fetch is inside of the
file. -/
def Faithful (env : Environment) (file : Nat → UInt8) (s : State) : Event → Prop
  | .receiver i (.respond _ (.partialContent data)) => ∀ r, s.receivers[i]? = some r →
      data.length ≤ (r.outstanding env.word).length ∧ Genuine file r.offset data
  | .command (.fetch request) _ => request.start + request.length ≤ env.fileSize
  | _ => True

/-- What always holds of a download. -/
structure Bookkept (env : Environment) (file : Nat → UInt8) (s : State) : Prop where
  owned : s.phase ≠ .stopped → ∀ p, contains env.word s.requested p = true →
    contains env.word s.downloaded p = false → holders (pieces env.word s.receivers s.queue) p = 1
  once : s.phase ≠ .stopped → ∀ p, holders (pieces env.word s.receivers s.queue) p ≤ 1
  written : ∀ out, s.output = some out ∨ s.handed = some out →
    ∀ p, contains env.word s.downloaded p = true → out p = file p
  complete : ∀ out, s.handed = some out →
    ∀ p, p < env.fileSize → contains env.word s.downloaded p = true

variable {messages : List ReceivedData} {r : Receiver} {offset length : Nat} {data : Bytes}
  {i : Nat}

section Receiving

variable {word : Nat} {requested downloaded : RangeSet} {receivers : List Receiver}
  {queue : List ReceivedData}

/-- Messages without data. -/
def Silent (messages : List ReceivedData) : Prop := ∀ m ∈ messages, partRange m = none

theorem silent_parts (silent : Silent messages) (part : PartialFileData) :
    ReceivedData.data part ∉ messages := by
  intro inside
  cases silent _ inside

theorem silent_measure (word : Nat) (r : Receiver) (elapsed : Nat) :
    Silent (r.measure word elapsed) := by
  rw [Receiver.measure]
  split <;> simp [Silent, partRange]

/-- The numbers of a receiver. -/
structure SameNumbers (r r' : Receiver) : Prop where
  length_eq : r'.length = r.length
  offset_eq : r'.offset = r.offset
  actualLength_eq : r'.actualLength = r.actualLength

theorem ping_same (r : Receiver) (elapsed : Nat) :
    SameNumbers r (r.takeInitial.ping elapsed).1 ∧
      (r.takeInitial.ping elapsed).1.phase = r.phase ∧ Silent (r.takeInitial.ping elapsed).2 := by
  have taken : SameNumbers r r.takeInitial ∧ r.takeInitial.phase = r.phase := by
    rw [Receiver.takeInitial]
    split <;> exact ⟨⟨rfl, rfl, rfl⟩, rfl⟩
  obtain ⟨⟨length, offset, actual⟩, phase⟩ := taken
  rw [Receiver.ping]
  split
  · exact ⟨⟨length, offset, actual⟩, phase, by simp [Silent, partRange]⟩
  · exact ⟨⟨length, offset, actual⟩, phase, by simp [Silent]⟩

theorem respond_body (word : Nat) (r : Receiver) (elapsed : Nat) (data : Bytes) :
    ∃ messages r', r.respond word elapsed (.partialContent data) =
        (r', messages ++ [.data ⟨r.offset, data⟩]) ∧ Silent messages ∧ r'.length = r.length ∧
      r'.actualLength = wrappingAdd word r.actualLength data.length ∧
      r'.offset = wrappingAdd word r.offset data.length ∧ r'.phase = r.phase := by
  obtain ⟨⟨length, offset, actual⟩, phase, silent⟩ := ping_same r elapsed
  rw [← offset, ← actual]
  exact ⟨_, _, rfl, silent, length, rfl, rfl, phase⟩

/-- An empty missing range could be subtracted as well. -/
theorem subtract_missing (word : Nat) (r : Receiver) (requested : RangeSet) :
    (if 0 < r.bytesRemaining word then subtractRange word (r.missingRange word) requested
      else requested) = subtractRange word (r.missingRange word) requested := by
  split
  · rfl
  · rename_i nothing
    have empty : (r.missingRange word).length = 0 := Nat.eq_zero_of_not_pos nothing
    rw [subtractRange, if_pos empty]

/-- What a step of a receiver does: nothing, a change without data, or it takes a body in, gives
the rest back or leaves. -/
inductive ReceiverMoves (env : Environment) (s : State) (i : Nat) (r : Receiver) :
    ReceiverAction → State → Prop
  | idle {action : ReceiverAction} : ReceiverMoves env s i r action s
  | quiet {action : ReceiverAction} {r' : Receiver} {messages : List ReceivedData} {slots : Nat}
      (same : SameNumbers r r') (here : r.phase ≠ .returned) (here' : r'.phase ≠ .returned)
      (silent : Silent messages) :
      ReceiverMoves env s i r action { s with
        receivers := s.receivers.set i r', queue := s.queue ++ messages, downloadSlots := slots }
  | body {elapsed : Nat} {data : Bytes} (receiving : r.phase = .receiving) :
      ReceiverMoves env s i r (.respond elapsed (.partialContent data)) { s with
        receivers := s.receivers.set i (r.respond env.word elapsed (.partialContent data)).1
        queue := s.queue ++ (r.respond env.word elapsed (.partialContent data)).2 }
  | giveBack (measured : r.phase = .measured) :
      ReceiverMoves env s i r .giveBack { s with
        receivers := s.receivers.set i { r with phase := .returned }
        requested := subtractRange env.word (r.missingRange env.word) s.requested }
  | leave (returned : r.phase = .returned) :
      ReceiverMoves env s i r .leave { s with
        receivers := s.receivers.eraseIdx i, downloadSlots := s.downloadSlots + 1 }

theorem receiverStep_moves (env : Environment) (s : State) (i : Nat) (r : Receiver)
    (action : ReceiverAction) : ReceiverMoves env s i r action (receiverStep env s i r action) := by
  have quiet (phase : ReceiverPhase) (slots : Nat) (here : r.phase ≠ .returned)
      (here' : phase ≠ .returned) : ReceiverMoves env s i r action { s with
        receivers := s.receivers.set i { r with phase := phase }, downloadSlots := slots } := by
    simpa using @ReceiverMoves.quiet env s i r action { r with phase := phase } [] slots
      ⟨rfl, rfl, rfl⟩ here here' (by simp [Silent])
  cases action with
  | acquire =>
    rw [receiverStep]
    split
    · rename_i waiting
      exact quiet .receiving _ (by simp [waiting.1]) (by simp)
    · exact .idle
  | respond elapsed response =>
    obtain ⟨⟨length, offset, actual⟩, -, silent⟩ := ping_same r elapsed
    rw [receiverStep]
    split
    · rename_i receiving
      cases response with
      | partialContent data => exact .body receiving
      | otherStatus | brokenBody =>
        exact .quiet ⟨length, offset, actual⟩ (by simp [receiving])
          (by simp [Receiver.respond]) silent
    · exact .idle
  | streamEnds =>
    rw [receiverStep]
    split
    · rename_i receiving
      exact quiet .ended _ (by simp [receiving.1]) (by simp)
    · exact .idle
  | measure elapsed =>
    rw [receiverStep]
    split
    · rename_i ended
      exact .quiet ⟨rfl, rfl, rfl⟩ (by simp [ended]) (by simp) (silent_measure env.word r elapsed)
    · exact .idle
  | giveBack =>
    rw [receiverStep, subtract_missing]
    split
    · rename_i measured
      exact .giveBack measured
    · exact .idle
  | leave =>
    rw [receiverStep]
    split
    · rename_i returned
      exact .leave returned
    · exact .idle

theorem books_still (books : Books word requested downloaded receivers queue) {r' : Receiver}
    (found : receivers[i]? = some r) (same : SameNumbers r r') (here : r.phase ≠ .returned)
    (here' : r'.phase ≠ .returned) (silent : Silent messages) :
    Books word requested downloaded (receivers.set i r') (queue ++ messages) := by
  obtain ⟨length, offset, actual⟩ := same
  have within := books.receivers_within r (List.mem_of_getElem? found)
  have within' : Within word r' := by
    refine ⟨?_, ?_, ?_⟩
    · rw [length, actual]
      exact within.received
    · rw [length]
      exact within.length_lt
    · rw [length, offset, actual]
      exact within.fits
  have fit : ∀ part, ReceivedData.data part ∈ messages → part.range.Fits word :=
    fun part inside => absurd inside (silent_parts silent part)
  refine books_set books found within' fit ?_
  intro p
  have nothing : messages.filterMap partRange = [] := List.filterMap_eq_nil_iff.mpr silent
  rw [nothing, Receiver.outstanding, Receiver.outstanding, if_neg here, if_neg here',
    missingRange_eq within, missingRange_eq within', length, offset, actual]

/-- A body: its positions go to the message, the others stay. -/
theorem books_body (books : Books word requested downloaded receivers queue)
    (found : receivers[i]? = some r) (here : r.phase ≠ .returned) (elapsed : Nat)
    (short : data.length ≤ (r.outstanding word).length) :
    Books word requested downloaded
      (receivers.set i (r.respond word elapsed (.partialContent data)).1)
      (queue ++ (r.respond word elapsed (.partialContent data)).2) := by
  obtain ⟨messages, r', respond, silent, length, actual, offset, phase⟩ :=
    respond_body word r elapsed data
  have within := books.receivers_within r (List.mem_of_getElem? found)
  rw [Receiver.outstanding, if_neg here, missingRange_eq within] at short
  simp only at short
  have received := within.received
  have length_lt := within.length_lt
  have fits := within.fits
  rw [wrappingAdd_eq (by omega)] at actual offset
  have within' : Within word r' := ⟨by omega, by omega, by omega⟩
  have nothing : messages.filterMap partRange = [] := List.filterMap_eq_nil_iff.mpr silent
  rw [respond]
  refine books_set books found within' ?_ ?_
  · intro part inside
    rcases List.mem_append.mp inside with old | new
    · exact absurd old (silent_parts silent part)
    · cases List.mem_singleton.mp new
      simp only [Range.Fits, PartialFileData.range]
      omega
  · intro p
    have here' : r'.phase ≠ .returned := by rwa [phase]
    have sent : (messages ++ [ReceivedData.data ⟨r.offset, data⟩]).filterMap partRange =
        [⟨r.offset, data.length⟩] := by
      rw [List.filterMap_append, nothing]
      rfl
    rw [sent, Receiver.outstanding, Receiver.outstanding, if_neg here, if_neg here',
      missingRange_eq within, missingRange_eq within', length, offset, actual, ← Nat.sub_sub]
    exact holders_cut r.offset short p

end Receiving

/-- The bytes in the queue and in the output file. -/
structure Contents (fileSize : Nat) (file : Nat → UInt8) (downloaded : RangeSet)
    (queue : List ReceivedData) (output handed : Option (Nat → UInt8)) : Prop where
  parts : ∀ part, ReceivedData.data part ∈ queue → Genuine file part.offset part.data
  output_eq : ∀ out, output = some out → ∀ p, Covers downloaded p → out p = file p
  handed_eq : ∀ out, handed = some out → (∀ p, p < fileSize → Covers downloaded p) ∧
    ∀ p, Covers downloaded p → out p = file p

/-- The invariant. A fetch that has failed may have taken a message out of the queue. -/
structure Kept (env : Environment) (file : Nat → UInt8) (s : State) : Prop where
  books : s.phase ≠ .stopped → Books env.word s.requested s.downloaded s.receivers s.queue
  sorted : Sorted env.word 0 s.downloaded
  contents : Contents env.fileSize file s.downloaded s.queue s.output s.handed
  inside : ∀ offset length, s.phase = .prefetch offset length → offset + length ≤ env.fileSize
  running : s.phase ≠ .stopped → s.handed = none

section Contents

variable {fileSize : Nat} {file : Nat → UInt8} {downloaded : RangeSet} {queue : List ReceivedData}
  {output handed : Option (Nat → UInt8)}

theorem contents_append (contents : Contents fileSize file downloaded queue output handed)
    (parts : ∀ part, ReceivedData.data part ∈ messages → Genuine file part.offset part.data) :
    Contents fileSize file downloaded (queue ++ messages) output handed := by
  refine ⟨?_, contents.output_eq, contents.handed_eq⟩
  intro part inside
  rcases List.mem_append.mp inside with old | new
  · exact contents.parts part old
  · exact parts part new

theorem contents_silent (contents : Contents fileSize file downloaded queue output handed)
    (silent : Silent messages) :
    Contents fileSize file downloaded (queue ++ messages) output handed :=
  contents_append contents fun part inside => absurd inside (silent_parts silent part)

theorem contents_tail {message : ReceivedData}
    (contents : Contents fileSize file downloaded (message :: queue) output handed) :
    Contents fileSize file downloaded queue output handed :=
  ⟨fun part inside => contents.parts part (by simp [inside]), contents.output_eq,
    contents.handed_eq⟩

theorem write_genuine {out : Nat → UInt8} (genuine : Genuine file offset data) {p : Nat}
    (right : p < offset ∨ offset + data.length ≤ p → out p = file p) :
    write out offset data p = file p := by
  rw [write]
  split
  · rename_i before
    exact right (.inl before)
  · rename_i behind
    cases found : data[p - offset]? with
    | none =>
      have beyond := List.getElem?_eq_none_iff.mp found
      exact right (.inr (by omega))
    | some b =>
      have byte := genuine (p - offset) b found
      rw [Nat.add_sub_cancel' (by omega)] at byte
      exact byte.symm

/-- Behind a write all positions that are downloaded by then have the right bytes. -/
theorem write_downloaded {part : PartialFileData} {out : Nat → UInt8} {downloaded' : RangeSet}
    (genuine : Genuine file part.offset part.data)
    (old : ∀ p, Covers downloaded p → out p = file p)
    (covers : ∀ p, Covers downloaded' p ↔ part.range.Holds p ∨ Covers downloaded p) :
    ∀ p, Covers downloaded' p → write out part.offset part.data p = file p := by
  intro p covered
  refine write_genuine genuine ?_
  intro outside
  rcases (covers p).mp covered with held | before
  · obtain ⟨first, last⟩ := held
    simp only [PartialFileData.range] at first last
    omega
  · exact old p before

theorem genuine_take (genuine : Genuine file offset data) (n : Nat) :
    Genuine file offset (data.take n) := by
  intro k b found
  rw [List.getElem?_take] at found
  split at found
  · exact genuine k b found
  · cases found

end Contents

section Requests

variable {env : Environment} {s : State}

theorem downloadLength_inside (roomy : env.fileSize + env.params.minimumDownloadSize < env.word)
    (slow : env.fileSize + s.throughput < env.word) (inside : offset + length ≤ env.fileSize) :
    offset + downloadLength env s offset length ≤ env.fileSize := by
  have bound : ∀ wanted, offset + wanted < env.word →
      offset + (if env.fileSize < wrappingAdd env.word offset wanted then
        wrappingSub env.word env.fileSize offset else wanted) ≤ env.fileSize := by
    intro wanted fits
    rw [wrappingAdd_eq fits, wrappingSub_eq (by omega) (by omega)]
    split <;> omega
  refine bound _ ?_
  rw [grownLength]
  split <;> split <;> omega

section

variable (requested : Sorted env.word 0 s.requested) (downloaded : Sorted env.word 0 s.downloaded)
include requested downloaded

theorem rangesToRequest_spec (fits : offset + downloadLength env s offset length < env.word) :
    Sorted env.word 0 (rangesToRequest env s offset length) ∧
      ∀ p, Covers (rangesToRequest env s offset length) p → ¬ Covers s.requested p := by
  have whole := (@addRange_nil env.word ⟨offset, downloadLength env s offset length⟩ fits).1
  have first := (subtractRangeSet_spec whole downloaded).1
  obtain ⟨sorted, covers⟩ := subtractRangeSet_spec first requested
  exact ⟨sorted, fun p inside => ((covers p).mp inside).2⟩

theorem missingData_spec (fits : env.fileSize < env.word) :
    Sorted env.word 0 (missingData env s) ∧
      ∀ r ∈ missingData env s, r.start + r.length ≤ env.fileSize := by
  obtain ⟨whole, holds⟩ := @addRange_nil env.word ⟨0, env.fileSize⟩
    (by simpa [Range.Fits] using fits)
  obtain ⟨first, covers⟩ := subtractRangeSet_spec whole downloaded
  obtain ⟨sorted, covers'⟩ := subtractRangeSet_spec first requested
  refine ⟨sorted, range_below sorted ?_⟩
  intro p inside
  have inFile := (holds p).mp ((covers p).mp ((covers' p).mp inside).1).1
  simpa using inFile.2

/-- A read position behind the end of the file makes a range that no missing range meets. -/
theorem tailEnd_inside (fits : env.fileSize < env.word) :
    ∀ r ∈ tailEnd env s, r.start + r.length ≤ env.fileSize := by
  obtain ⟨missing, inside⟩ := missingData_spec requested downloaded fits
  rw [tailEnd]
  by_cases before : s.readPosition < env.fileSize
  · have range := (@addRange_nil env.word (tailRange env s) (by
      rw [tailRange, wrappingSub_eq (by omega) fits]
      simp only [Range.Fits]
      omega)).1
    obtain ⟨sorted, covers⟩ := intersection_spec range missing
    refine range_below sorted fun p covered => ?_
    obtain ⟨r, member, holds⟩ := ((covers p).mp covered).2
    have last := inside r member
    exact Nat.lt_of_lt_of_le holds.2 last
  · rw [addRange]
    split
    · simp [intersection, intersectionLoop]
    · rw [insertRange, intersection, intersectionLoop_behind]
      · simp
      · intro b member
        rw [stop_eq (sorted_start missing b member).2.2]
        have last := inside b member
        dsimp only [tailRange]
        omega

theorem preFetch_inside (fits : env.fileSize < env.word) {bytes : Nat}
    (chosen : preFetchMoreData env s bytes = some (offset, length)) :
    offset + length ≤ env.fileSize := by
  rw [preFetchMoreData] at chosen
  split at chosen
  · rename_i range rest tail
    have inside := tailEnd_inside requested downloaded fits range (by simp [tail])
    cases chosen
    omega
  · split at chosen
    · rename_i range rest missing
      have inside := (missingData_spec requested downloaded fits).2 range (by simp [missing])
      cases chosen
      omega
    · cases chosen

end

end Requests

section Keeping

variable {env : Environment} {file : Nat → UInt8} {s : State}

theorem kept_downloadRange (roomy : env.fileSize + env.params.minimumDownloadSize < env.word)
    (slow : env.fileSize + s.throughput < env.word) (kept : Kept env file s)
    (active : s.phase ≠ .stopped) (inside : offset + length ≤ env.fileSize) (failsAt : Option Nat)
    {next : Phase} (done : ∀ offset length, next ≠ .prefetch offset length) :
    Kept env file (downloadRange env s offset length failsAt next) := by
  have books := kept.books active
  have bound := downloadLength_inside roomy slow inside
  have fits : offset + downloadLength env s offset length < env.word := by omega
  obtain ⟨sorted, fresh⟩ :=
    rangesToRequest_spec books.requested_sorted books.downloaded_sorted fits
  refine ⟨fun _ => books_request (sorted_take sorted _) books ?_, kept.sorted, kept.contents, ?_,
    fun _ => kept.running active⟩
  · rintro p ⟨r, member, holds⟩
    exact fresh p ⟨r, List.mem_of_mem_take member, holds⟩
  · intro o l phase
    simp only [downloadRange] at phase
    split at phase
    · exact absurd phase (done o l)
    · cases phase

theorem kept_checkPending (fits : env.fileSize < env.word) (kept : Kept env file s)
    (active : s.phase ≠ .stopped) : Kept env file (checkPending env s) := by
  have books := kept.books active
  have select : Kept env file { s with phase := .select } :=
    ⟨fun _ => books, kept.sorted, kept.contents, by simp, fun _ => kept.running active⟩
  rw [checkPending]
  split
  · split
    · rename_i offset length chosen
      refine ⟨fun _ => books, kept.sorted, kept.contents, ?_, fun _ => kept.running active⟩
      intro o l phase
      cases phase
      exact preFetch_inside books.requested_sorted books.downloaded_sorted fits chosen
    · exact select
  · exact select

section

variable (kept : Kept env file s) (active : s.phase ≠ .stopped)
include kept active

theorem kept_body (found : s.receivers[i]? = some r) (here : r.phase ≠ .returned) (elapsed : Nat)
    (short : data.length ≤ (r.outstanding env.word).length) (genuine : Genuine file r.offset data) :
    Kept env file { s with
      receivers := s.receivers.set i (r.respond env.word elapsed (.partialContent data)).1
      queue := s.queue ++ (r.respond env.word elapsed (.partialContent data)).2 } := by
  refine ⟨fun _ => books_body (kept.books active) found here elapsed short, kept.sorted, ?_,
    kept.inside, kept.running⟩
  obtain ⟨messages, r', respond, silent, -⟩ := respond_body env.word r elapsed data
  rw [respond]
  refine contents_append kept.contents ?_
  intro part member
  rcases List.mem_append.mp member with old | new
  · exact absurd old (silent_parts silent part)
  · cases List.mem_singleton.mp new
    exact genuine

theorem kept_receiverStep (found : s.receivers[i]? = some r) {action : ReceiverAction}
    (faithful : Faithful env file s (.receiver i action)) :
    Kept env file (receiverStep env s i r action) := by
  have books := kept.books active
  have moves := receiverStep_moves env s i r action
  generalize receiverStep env s i r action = s' at moves
  cases moves with
  | idle => exact kept
  | quiet same here here' silent =>
    exact ⟨fun _ => books_still books found same here here' silent, kept.sorted,
      contents_silent kept.contents silent, kept.inside, kept.running⟩
  | body receiving =>
    obtain ⟨short, genuine⟩ := faithful r found
    exact kept_body kept active found (by simp [receiving]) _ short genuine
  | giveBack measured =>
    exact ⟨fun _ => books_giveBack books found (by simp [measured]), kept.sorted, kept.contents,
      kept.inside, kept.running⟩
  | leave returned =>
    exact ⟨fun _ => books_leave books found returned, kept.sorted, kept.contents, kept.inside,
      kept.running⟩

variable {rest : List ReceivedData}

theorem kept_handlePart {part : PartialFileData} (queue : s.queue = .data part :: rest) (io : Io) :
    Kept env file (handlePart env { s with queue := rest } part io) := by
  have books := kept.books active
  have contents := kept.contents
  have nothing := kept.running active
  rw [queue] at books contents
  have genuine := contents.parts part (by simp)
  have tail := contents_tail contents
  rw [handlePart]
  split
  · exact ⟨fun going => absurd rfl going, kept.sorted, tail, by simp, fun going => absurd rfl going⟩
  · rename_i out found
    have old := contents.output_eq out found
    split
    · rename_i n fails
      refine ⟨fun going => absurd rfl going, kept.sorted, ⟨tail.parts, ?_, tail.handed_eq⟩, by simp,
        fun going => absurd rfl going⟩
      rintro out' ⟨⟩ p covered
      exact write_genuine (genuine_take genuine n) fun _ => old p covered
    · have settled := books_settle books
      have covers := (addRange_spec books.downloaded_sorted (Nat.zero_le _)
        (books.parts_fit part (by simp))).2
      have written := write_downloaded genuine old covers
      simp only
      split
      · rename_i full
        refine ⟨fun going => absurd rfl going, settled.downloaded_sorted, ⟨tail.parts, ?_, ?_⟩,
          by simp [finish], fun going => absurd rfl going⟩
        · intro out' taken
          cases taken
        · intro out' handed
          simp only [finish, nothing] at handed
          split at handed
          · cases handed
            refine ⟨?_, written⟩
            intro p inFile
            exact (containedLength_spec settled.downloaded_sorted 0).1 p (Nat.zero_le p) (by omega)
          · cases handed
      · refine ⟨fun _ => settled, settled.downloaded_sorted, ⟨tail.parts, ?_, ?_⟩, by simp,
          fun _ => nothing⟩
        · rintro out' ⟨⟩ p covered
          exact written p covered
        · intro out' handed
          rw [nothing] at handed
          cases handed

theorem kept_handleFileData {message : ReceivedData} (queue : s.queue = message :: rest) (io : Io) :
    Kept env file (handleFileData env { s with queue := rest } io message) := by
  have books := kept.books active
  have contents := kept.contents
  have nothing := kept.running active
  rw [queue] at books contents
  cases message with
  | throughput bytes =>
    exact ⟨fun _ => books_drop rfl books, kept.sorted, contents_tail contents, by simp
      [handleFileData, handleThroughput], fun _ => nothing⟩
  | responseTime duration =>
    exact ⟨fun _ => books_drop rfl books, kept.sorted, contents_tail contents, by simp
      [handleFileData, handleResponseTime], fun _ => nothing⟩
  | data part => exact kept_handlePart kept active queue io

end

theorem kept_step (roomy : env.fileSize + env.params.minimumDownloadSize < env.word)
    {event : Event} (slow : env.fileSize + s.throughput < env.word) (kept : Kept env file s)
    (faithful : Faithful env file s event) : Kept env file (step env s event) := by
  unfold step
  split
  · exact kept
  · exact ⟨kept.books, kept.sorted, kept.contents, kept.inside, kept.running⟩
  · exact ⟨kept.books, kept.sorted, kept.contents, kept.inside, kept.running⟩
  · rename_i active
    split
    · exact kept
    · rename_i r found
      exact kept_receiverStep kept active found faithful
  · rename_i request failsAt select
    exact kept_downloadRange roomy slow kept (by simp [select]) faithful failsAt (by simp)
  · rename_i select
    exact ⟨fun going => absurd rfl going, kept.sorted, kept.contents, by simp,
      fun going => absurd rfl going⟩
  · rename_i io select
    split
    · exact kept
    · rename_i message rest queue
      exact kept_handleFileData kept (by simp [select]) queue io
  · rename_i check
    exact kept_checkPending (by omega) kept (by simp [check])
  · rename_i offset length failsAt chosen
    exact kept_downloadRange roomy slow kept (by simp [chosen]) (kept.inside offset length chosen)
      failsAt (by simp)
  · exact kept

theorem kept_start (fits : length < env.word) : Kept env file (start env ⟨0, length⟩) := by
  have request : (⟨0, wrappingAdd env.word 0 length⟩ : Range) = ⟨0, length⟩ := by
    rw [wrappingAdd_eq (by omega), Nat.zero_add]
  have empty : Books env.word [] [] [] [] :=
    ⟨trivial, trivial, ⟨by simp, by simp [pieces], by simp, by simp⟩, by simp, by simp⟩
  have range : Range.Fits env.word ⟨0, length⟩ := by simpa [Range.Fits] using fits
  have books := books_spawn empty range (by simp) true
  refine ⟨fun _ => ?_, trivial, ⟨by simp [start], by simp [start], by simp [start]⟩,
    by simp [start], fun _ => rfl⟩
  simp only [start, request]
  exact books

theorem kept_bookkept (kept : Kept env file s) : Bookkept env file s := by
  have downloaded (p : Nat) := contains_iff kept.sorted p
  refine ⟨?_, ?_, ?_, ?_⟩
  · intro active p asked notDone
    have books := kept.books active
    refine books.balanced.owned p ((contains_iff books.requested_sorted p).mp asked) ?_
    intro done
    rw [(downloaded p).mpr done] at notDone
    cases notDone
  · intro active p
    exact balanced_le_one (kept.books active).balanced p
  · rintro out (output | handed) p done
    · exact kept.contents.output_eq out output p ((downloaded p).mp done)
    · exact (kept.contents.handed_eq out handed).2 p ((downloaded p).mp done)
  · intro out handed p inFile
    exact (downloaded p).mpr ((kept.contents.handed_eq out handed).1 p inFile)

end Keeping

/-- The bookkeeping of any interleaving, as long as the end of no range that is asked for wraps. -/
theorem downloads_bookkept (env : Environment) (file : Nat → UInt8) {length : Nat}
    (word : length < env.word) (roomy : env.fileSize + env.params.minimumDownloadSize < env.word)
    {events : List Event}
    (faithful : Along (step env) (fun s event => Faithful env file s event ∧
      env.fileSize + s.throughput < env.word) (start env ⟨0, length⟩) events) :
    Bookkept env file (run (step env) (start env ⟨0, length⟩) events) := by
  refine kept_bookkept (run_invariant ?_ (kept_start word) faithful)
  intro s event kept ok
  exact kept_step roomy ok.2 kept ok.1

/-- A body as the server sends it. -/
def bodyOf (file : Nat → UInt8) (offset length : Nat) : Bytes :=
  (List.range length).map fun k => file (offset + k)

theorem bodyOf_genuine (file : Nat → UInt8) (offset length : Nat) :
    Genuine file offset (bodyOf file offset length) := by
  intro k b found
  rw [bodyOf, List.getElem?_map] at found
  by_cases inside : k < length
  · rw [List.getElem?_range inside] at found
    exact Option.some.inj found
  · rw [List.getElem?_eq_none (by simpa using inside)] at found
    cases found

def smallFile : Environment :=
  { word := 2 ^ 32, fileSize := 3, params := ⟨2, 1, 0, 0⟩, desiredPendingBytes := fun _ _ => 0 }

def smallBytes (p : Nat) : UInt8 := UInt8.ofNat (p + 1)

/-- Two bytes come with the first response, the third one is fetched while they are in the queue. -/
def smallDownload : List Event :=
  [.receiver 0 .acquire, .receiver 0 (.respond 0 (.partialContent (bodyOf smallBytes 0 2))),
    .receiver 0 .streamEnds, .command (.fetch ⟨2, 1⟩) none, .check, .message ⟨none, true, true⟩,
    .check, .receiver 0 (.measure 0), .receiver 0 .giveBack, .receiver 0 .leave,
    .receiver 0 .acquire, .receiver 0 (.respond 0 (.partialContent (bodyOf smallBytes 2 1))),
    .message ⟨none, true, true⟩]

theorem smallDownload_bookkept : ∃ out,
    (run (step smallFile) (start smallFile ⟨0, 2⟩) smallDownload).handed = some out ∧
      ∀ p, p < 3 → out p = smallBytes p := by
  have inside : 2 + 1 ≤ smallFile.fileSize := by decide
  have slow : ∀ n, n ≤ 12 → smallFile.fileSize + (run (step smallFile) (start smallFile ⟨0, 2⟩)
      (smallDownload.take n)).throughput < smallFile.word := by decide +kernel
  have kept := @downloads_bookkept smallFile smallBytes 2 (by decide) (by decide) smallDownload (by
    refine ⟨⟨trivial, slow 0 (by decide)⟩, ⟨?_, slow 1 (by decide)⟩, ⟨trivial, slow 2 (by decide)⟩,
      ⟨inside, slow 3 (by decide)⟩, ⟨trivial, slow 4 (by decide)⟩,
      ⟨trivial, slow 5 (by decide)⟩, ⟨trivial, slow 6 (by decide)⟩, ⟨trivial, slow 7 (by decide)⟩,
      ⟨trivial, slow 8 (by decide)⟩, ⟨trivial, slow 9 (by decide)⟩, ⟨trivial, slow 10 (by decide)⟩,
      ⟨?_, slow 11 (by decide)⟩, ⟨trivial, slow 12 (by decide)⟩, trivial⟩
    · rintro r ⟨⟩
      exact ⟨by decide, bodyOf_genuine smallBytes 0 2⟩
    · rintro r ⟨⟩
      exact ⟨by decide, bodyOf_genuine smallBytes 2 1⟩)
  refine ⟨_, rfl, ?_⟩
  intro p inFile
  exact kept.written _ (.inr rfl) p (kept.complete _ rfl p inFile)

/-- The largest file whose size is a `usize` of 32 bits, with the default parameters. -/
def hugeFile : Environment :=
  { word := 2 ^ 32, fileSize := 2 ^ 32 - 1, params := ⟨65536, 8192, 500000000, 1500000000⟩
    desiredPendingBytes := fun _ _ => 0 }

/-- The last ten bytes are fetched twice. -/
def twiceRequested : List Event :=
  [.command (.fetch ⟨4294967285, 10⟩) none, .check, .command (.fetch ⟨4294967285, 10⟩) none]

/-- The end of the range wraps, so it is not seen to be requested and goes to two receivers. -/
theorem twiceRequested_not_bookkept :
    Along (step hugeFile) (Faithful hugeFile fun _ => 0) (start hugeFile ⟨0, 65536⟩)
        twiceRequested ∧
      ¬ Bookkept hugeFile (fun _ => 0)
        (run (step hugeFile) (start hugeFile ⟨0, 65536⟩) twiceRequested) := by
  have inside : 4294967285 + 10 ≤ hugeFile.fileSize := by decide
  constructor
  · exact ⟨inside, trivial, inside, trivial⟩
  · intro kept
    exact absurd (kept.once (by decide) 4294967285) (by decide)

end DownloadRuns
