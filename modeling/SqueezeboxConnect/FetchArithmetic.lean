import SqueezeboxConnect.StreamedFile
import SqueezeboxConnect.ByteFields

/-!
# The arithmetic of a download

Sizes and positions are machine words, and a difference underflows if more is
taken away than there is. The functions that subtract are given once more with
the subtraction checked: those of the fetch, of its receivers, of the reader and
of the stream loader controller. Some of them compare first. The others rely on
what the ranges, the seeks and the bodies happen to be.

A step of the fetch while a read waits is a step in front of that read.
-/

namespace FetchArithmetic

open AudioRanges AudioFetch DownloadRuns Cursors Runs Outcomes ByteFields Words
open StreamedFile (Setting AudioFileStreaming smallSetting)

section Fetch

def downloadLengthChecked (env : Environment) (s : State) (offset length : Nat) :
    Except Panic Nat :=
  let length := grownLength env s length
  if env.fileSize < wrappingAdd env.word offset length then checkedSub env.fileSize offset
  else .ok length

/-- The range behind the read position, in `pre_fetch_more_data`. -/
def tailRangeChecked (env : Environment) (s : State) : Except Panic Range :=
  (checkedSub env.fileSize s.readPosition).map fun length => ⟨s.readPosition, length⟩

def bytesRemainingChecked (r : Receiver) : Except Panic Nat := checkedSub r.length r.actualLength

/-- The receiver comes to its end. When the fetch has stopped there is nobody to send to, and it
does so without another message. -/
def Ending (s : State) (r : Receiver) : Prop :=
  r.phase = .measured ∨ s.phase = .stopped ∧ r.phase ≠ .returned

/-- The subtractions of a step of the fetch or of a receiver return. -/
def EventSafe (env : Environment) (s : State) (event : Event) : Prop :=
  match s.phase, event with
  | _, .receiver i .giveBack =>
    ∀ r, s.receivers[i]? = some r → Ending s r → Returns (bytesRemainingChecked r)
  | .select, .command (.fetch request) _ =>
    Returns (downloadLengthChecked env s request.start request.length)
  | .check, .check => Prefetches env s → Returns (tailRangeChecked env s)
  | .prefetch offset length, .prefetch _ => Returns (downloadLengthChecked env s offset length)
  | _, _ => True

/-- The bodies of a receiver are not longer than its request, a range to fetch begins in the
file, and the read position is in the file when more is prefetched. -/
def EventBounded (env : Environment) (s : State) (event : Event) : Prop :=
  match s.phase, event with
  | _, .receiver i .giveBack =>
    ∀ r, s.receivers[i]? = some r → Ending s r → r.actualLength ≤ r.length
  | .select, .command (.fetch request) _ => request.start ≤ env.fileSize
  | .check, .check => Prefetches env s → s.readPosition ≤ env.fileSize
  | _, _ => True

/-- The end of what is asked for, or sent, is a machine word. -/
def EventUnwrapped (env : Environment) (s : State) (event : Event) : Prop :=
  match s.phase, event with
  | _, .receiver i (.respond _ (.partialContent data)) =>
    ∀ r, s.receivers[i]? = some r → r.offset + data.length < env.word
  | .select, .command (.fetch request) _ =>
    request.start + grownLength env s request.length < env.word
  | .prefetch offset length, .prefetch _ => offset + grownLength env s length < env.word
  | _, _ => True

variable {env : Environment} {s : State} {length : Nat}

theorem downloadLengthChecked_returns {offset : Nat}
    (unwrapped : offset + grownLength env s length < env.word) :
    Returns (downloadLengthChecked env s offset length) ↔ offset ≤ env.fileSize := by
  simp only [downloadLengthChecked, wrappingAdd_eq unwrapped]
  split
  · exact checkedSub_returns
  · simp only [returns_ok, true_iff]
    omega

/-- Where a checked subtraction returns, the wrapping one has the same result. -/
theorem wrappingSub_of_checked {word a b n : Nat} (fits : a < word)
    (checked : checkedSub a b = .ok n) : wrappingSub word a b = n := by
  have enough : b ≤ a := checkedSub_returns.mp ⟨n, checked⟩
  rw [checkedSub_eq enough] at checked
  cases checked
  exact wrappingSub_eq enough fits

theorem downloadLength_eq {offset n : Nat} (fits : env.fileSize < env.word)
    (checked : downloadLengthChecked env s offset length = .ok n) :
    downloadLength env s offset length = n := by
  simp only [downloadLengthChecked] at checked
  simp only [downloadLength]
  split at checked
  · rw [if_pos ‹_›]
    exact wrappingSub_of_checked fits checked
  · rw [if_neg ‹_›]
    exact Except.ok.inj checked

theorem tailRange_eq {range : Range} (fits : env.fileSize < env.word)
    (checked : tailRangeChecked env s = .ok range) : tailRange env s = range := by
  rw [tailRangeChecked] at checked
  cases length : checkedSub env.fileSize s.readPosition with
  | error e => simp [length, Except.map] at checked
  | ok n =>
    rw [length] at checked
    cases checked
    rw [tailRange, wrappingSub_of_checked fits length]

variable {r : Receiver}

theorem bytesRemaining_eq {n : Nat} (fits : r.length < env.word)
    (checked : bytesRemainingChecked r = .ok n) : r.bytesRemaining env.word = n :=
  wrappingSub_of_checked fits checked

theorem downloadLength_fits {offset : Nat} (fits : env.fileSize < env.word)
    (inside : offset ≤ env.fileSize) (unwrapped : offset + grownLength env s length < env.word) :
    offset + downloadLength env s offset length < env.word := by
  obtain ⟨n, checked⟩ := (downloadLengthChecked_returns unwrapped).mpr inside
  rw [downloadLength_eq fits checked]
  simp only [downloadLengthChecked] at checked
  split at checked
  · rw [checkedSub_eq inside] at checked
    cases checked
    omega
  · cases checked
    exact unwrapped

theorem tailRangeChecked_returns :
    Returns (tailRangeChecked env s) ↔ s.readPosition ≤ env.fileSize := by
  exact returns_map.trans checkedSub_returns

/-- The receiver began at a place from which its whole request fits. -/
structure Placed (word : Nat) (r : Receiver) : Prop where
  received : r.actualLength ≤ r.offset
  fits : r.offset + r.length < word + r.actualLength

/-- The range sets are sorted, the messages and receivers are where they can be, and what is
prefetched begins in the file. Bodies may have been too long. -/
structure Orderly (env : Environment) (s : State) : Prop where
  requested : Sorted env.word 0 s.requested
  downloaded : Sorted env.word 0 s.downloaded
  parts : ∀ part, ReceivedData.data part ∈ s.queue → part.range.Fits env.word
  receivers : ∀ r ∈ s.receivers, Placed env.word r
  prefetch : ∀ offset length, s.phase = .prefetch offset length → offset ≤ env.fileSize

theorem event_safe_iff (orderly : Orderly env s) {event : Event}
    (unwrapped : EventUnwrapped env s event) :
    EventSafe env s event ↔ EventBounded env s event := by
  unfold EventSafe EventBounded
  unfold EventUnwrapped at unwrapped
  cases event with
  | receiver i action =>
    cases action with
    | giveBack => simp only [bytesRemainingChecked, checkedSub_returns]
    | _ => simp only
  | command command failsAt =>
    cases command with
    | fetch request =>
      cases phase : s.phase with
      | select =>
        rw [phase] at unwrapped
        exact downloadLengthChecked_returns unwrapped
      | _ => exact Iff.rfl
    | close => simp only
  | check =>
    cases phase : s.phase with
    | check => simp only [tailRangeChecked_returns]
    | _ => exact Iff.rfl
  | prefetch failsAt =>
    cases phase : s.phase with
    | prefetch offset length =>
      rw [phase] at unwrapped
      simp only [downloadLengthChecked_returns unwrapped, orderly.prefetch offset length phase]
    | _ => exact Iff.rfl
  | _ => simp only

theorem placed_new {range : Range} (fits : range.Fits env.word) (initialResponse : Bool) :
    Placed env.word (.new initialResponse range) :=
  ⟨Nat.zero_le _, fits⟩

theorem placed_same {r' : Receiver} (placed : Placed env.word r) (same : SameNumbers r r') :
    Placed env.word r' := by
  obtain ⟨length, offset, actual⟩ := same
  exact ⟨by rw [offset, actual]; exact placed.received,
    by rw [length, offset, actual]; exact placed.fits⟩

section

variable (orderly : Orderly env s)
include orderly

/-- Nothing here depends on the read position or the download mode. -/
theorem orderly_moved (position : Nat) (streaming : Bool) :
    Orderly env { s with readPosition := position, downloadStreaming := streaming } :=
  ⟨orderly.requested, orderly.downloaded, orderly.parts, orderly.receivers, orderly.prefetch⟩

theorem orderly_phase {phase : Phase}
    (inside : ∀ offset length, phase = .prefetch offset length → offset ≤ env.fileSize) :
    Orderly env { s with phase := phase } :=
  ⟨orderly.requested, orderly.downloaded, orderly.parts, orderly.receivers, inside⟩

theorem orderly_set (i : Nat) {r' : Receiver} (placed : Placed env.word r')
    {messages : List ReceivedData}
    (fit : ∀ part, ReceivedData.data part ∈ messages → part.range.Fits env.word) (slots : Nat) :
    Orderly env { s with
      receivers := s.receivers.set i r'
      queue := s.queue ++ messages
      downloadSlots := slots } := by
  refine ⟨orderly.requested, orderly.downloaded, ?_, ?_, orderly.prefetch⟩
  · intro part inside
    rcases List.mem_append.mp inside with old | new
    · exact orderly.parts part old
    · exact fit part new
  · intro r inside
    rcases List.mem_or_eq_of_mem_set inside with old | rfl
    · exact orderly.receivers r old
    · exact placed

theorem orderly_body {i : Nat} (placed : Placed env.word r) (elapsed : Nat) {data : Bytes}
    (unwrapped : r.offset + data.length < env.word) :
    Orderly env { s with
      receivers := s.receivers.set i (r.respond env.word elapsed (.partialContent data)).1
      queue := s.queue ++ (r.respond env.word elapsed (.partialContent data)).2 } := by
  obtain ⟨messages, r', respond, silent, length, actual, offset, -⟩ :=
    respond_body env.word r elapsed data
  have received := placed.received
  have whole := placed.fits
  rw [wrappingAdd_eq (by omega)] at actual offset
  have moved : Placed env.word r' := ⟨by omega, by omega⟩
  rw [respond]
  refine orderly_set orderly i moved ?_ s.downloadSlots
  intro part inside
  rcases List.mem_append.mp inside with old | new
  · exact absurd old (silent_parts silent part)
  · cases List.mem_singleton.mp new
    exact unwrapped

theorem orderly_receiverStep {i : Nat} (found : s.receivers[i]? = some r) {action : ReceiverAction}
    (unwrapped : ∀ elapsed data, action = .respond elapsed (.partialContent data) →
      r.offset + data.length < env.word)
    (bounded : action = .giveBack → r.phase = .measured → r.actualLength ≤ r.length) :
    Orderly env (receiverStep env s i r action) := by
  have placed := orderly.receivers r (List.mem_of_getElem? found)
  have moves := receiverStep_moves env s i r action
  generalize receiverStep env s i r action = s' at moves
  cases moves with
  | idle => exact orderly
  | quiet same _ _ silent =>
    exact orderly_set orderly i (placed_same placed same)
      (fun part inside => absurd inside (silent_parts silent part)) _
  | body _ => exact orderly_body orderly placed _ (unwrapped _ _ rfl)
  | giveBack measured =>
    have enough := bounded rfl measured
    have received := placed.received
    have whole := placed.fits
    have missing : (r.missingRange env.word).Fits env.word := by
      rw [Receiver.missingRange, bytesRemaining_eq (by omega) (checkedSub_eq enough)]
      simp only [Range.Fits]
      omega
    refine ⟨(subtractRange_spec orderly.requested missing).1, orderly.downloaded, orderly.parts,
      ?_, orderly.prefetch⟩
    intro r' inside
    rcases List.mem_or_eq_of_mem_set inside with old | rfl
    · exact orderly.receivers r' old
    · exact placed_same placed ⟨rfl, rfl, rfl⟩
  | leave _ =>
    exact ⟨orderly.requested, orderly.downloaded, orderly.parts,
      fun r' inside => orderly.receivers r' (List.mem_of_mem_eraseIdx inside), orderly.prefetch⟩

theorem orderly_downloadRange (fits : env.fileSize < env.word) {offset : Nat}
    (inside : offset ≤ env.fileSize) (unwrapped : offset + grownLength env s length < env.word)
    (failsAt : Option Nat) {next : Phase} (done : ∀ offset length, next ≠ .prefetch offset length) :
    Orderly env (downloadRange env s offset length failsAt next) := by
  have ends := downloadLength_fits fits inside unwrapped
  have ranges := (rangesToRequest_spec orderly.requested orderly.downloaded ends).1
  have spawned := sorted_take ranges (failsAt.getD (rangesToRequest env s offset length).length)
  refine ⟨(addRangeSet_spec orderly.requested spawned).1, orderly.downloaded, orderly.parts, ?_, ?_⟩
  · intro r member
    rcases List.mem_append.mp member with old | new
    · exact orderly.receivers r old
    · obtain ⟨range, taken, rfl⟩ := List.mem_map.mp new
      exact placed_new (sorted_start spawned range taken).2.2 false
  · intro o l phase
    simp only [downloadRange] at phase
    split at phase
    · exact absurd phase (done o l)
    · cases phase

theorem orderly_checkPending (fits : env.fileSize < env.word) :
    Orderly env (checkPending env s) := by
  have select : Orderly env { s with phase := .select } := orderly_phase orderly (by simp)
  rw [checkPending]
  split
  · split
    · rename_i offset length chosen
      refine orderly_phase orderly ?_
      rintro o l ⟨⟩
      have inside := preFetch_inside orderly.requested orderly.downloaded fits chosen
      omega
    · exact select
  · exact select

theorem orderly_handleFileData {message : ReceivedData} {rest : List ReceivedData}
    (queue : s.queue = message :: rest) (io : Io) :
    Orderly env (handleFileData env { s with queue := rest } io message) := by
  have later : ∀ part, ReceivedData.data part ∈ rest → part.range.Fits env.word :=
    fun part inside => orderly.parts part (by rw [queue]; exact List.mem_cons_of_mem _ inside)
  cases message with
  | throughput bytes =>
    exact ⟨orderly.requested, orderly.downloaded, later, orderly.receivers,
      by simp [handleFileData, handleThroughput]⟩
  | responseTime duration =>
    exact ⟨orderly.requested, orderly.downloaded, later, orderly.receivers,
      by simp [handleFileData, handleResponseTime]⟩
  | data part =>
    have fits := orderly.parts part (by rw [queue]; exact List.mem_cons_self)
    have grown := (addRange_spec orderly.downloaded (Nat.zero_le _) fits).1
    simp only [handleFileData, handlePart]
    split
    · exact ⟨orderly.requested, orderly.downloaded, later, orderly.receivers, by simp⟩
    · split
      · exact ⟨orderly.requested, orderly.downloaded, later, orderly.receivers, by simp⟩
      · split
        · exact ⟨orderly.requested, grown, later, orderly.receivers, by simp [finish]⟩
        · exact ⟨orderly.requested, grown, later, orderly.receivers, by simp⟩

theorem orderly_step (fits : env.fileSize < env.word) {event : Event}
    (unwrapped : EventUnwrapped env s event) (bounded : EventBounded env s event) :
    Orderly env (AudioFetch.step env s event) := by
  unfold AudioFetch.step
  split
  · exact orderly
  · exact orderly_moved orderly s.readPosition _
  · exact orderly_moved orderly _ s.downloadStreaming
  · split
    · exact orderly
    · rename_i i action _ r found
      refine orderly_receiverStep orderly found ?_ ?_
      · rintro elapsed data rfl
        simp only [EventUnwrapped] at unwrapped
        exact unwrapped r found
      · rintro rfl measured
        simp only [EventBounded] at bounded
        exact bounded r found (.inl measured)
  · rename_i request failsAt select
    simp only [EventUnwrapped, EventBounded, select] at unwrapped bounded
    exact orderly_downloadRange orderly fits bounded unwrapped failsAt (by simp)
  · exact orderly_phase orderly (by simp)
  · split
    · exact orderly
    · rename_i message rest queue
      exact orderly_handleFileData orderly queue _
  · exact orderly_checkPending orderly fits
  · rename_i offset length failsAt chosen
    simp only [EventUnwrapped, chosen] at unwrapped
    exact orderly_downloadRange orderly fits (orderly.prefetch offset length chosen) unwrapped
      failsAt (by simp)
  · exact orderly

end

theorem orderly_start (env : Environment) (fits : length < env.word) :
    Orderly env (start env ⟨0, length⟩) := by
  have request : (⟨0, wrappingAdd env.word 0 length⟩ : Range) = ⟨0, length⟩ := by
    rw [wrappingAdd_eq (by omega), Nat.zero_add]
  have range : Range.Fits env.word ⟨0, length⟩ := by simpa [Range.Fits] using fits
  refine ⟨?_, trivial, by simp [start], ?_, by simp [start]⟩
  · simp only [start, request]
    exact (addRange_nil range).1
  · intro r inside
    cases List.mem_singleton.mp inside
    exact placed_new range true

end Fetch

section Controller

/-- The controller shares the state of the fetch, or there is no fetch. -/
structure StreamLoaderController where
  streamShared : Option State
  fileSize : Nat

namespace StreamLoaderController

def rangeAvailable (word : Nat) (c : StreamLoaderController) (range : Range) :
    Except Panic Bool :=
  match c.streamShared with
  | some shared =>
    .ok (range.length ≤ containedLengthFromValue word shared.downloaded range.start)
  | none => (checkedSub c.fileSize range.start).map fun rest => decide (range.length ≤ rest)

def rangeToEndAvailable (word : Nat) (c : StreamLoaderController) : Except Panic Bool :=
  match c.streamShared with
  | some shared => (checkedSub c.fileSize shared.readPosition).bind fun rest =>
    c.rangeAvailable word ⟨shared.readPosition, rest⟩
  | none => .ok true

/-- The range that `fetch_blocking` asks for, now and again, and waits for. -/
def fetchBlocking (word : Nat) (c : StreamLoaderController) (range : Range) :
    Except Panic Range :=
  if c.fileSize ≤ range.start then .ok { range with length := 0 }
  else if c.fileSize < range.stop word then
    (checkedSub c.fileSize range.start).map fun length => { range with length := length }
  else .ok range

/-- The ranges that `fetch_next_and_wait` asks for. -/
def fetchNextAndWait (word : Nat) (c : StreamLoaderController) (requestLength waitLength : Nat) :
    Except Panic (List Range) :=
  match c.streamShared with
  | some shared => (c.fetchBlocking word ⟨shared.readPosition, waitLength⟩).map fun range =>
    [⟨shared.readPosition, requestLength⟩, range]
  | none => .ok []

end StreamLoaderController

end Controller

section Files

/-- The number of bytes that a read asks the fetch for. -/
def lengthToRequestChecked (env : Setting) (f : AudioFileStreaming) (size : Nat) :
    Except Panic Nat :=
  let offset := f.position % env.word
  if env.fileSize ≤ offset then .ok 0
  else (checkedSub env.fileSize offset).bind fun rest =>
    let length := min size rest
    if length = 0 then .ok 0
    else if f.shared.downloadStreaming then
      (checkedSub env.fileSize offset).map fun rest =>
        min (wrappingAdd env.word length env.readAhead) rest
    else .ok length

/-- Nothing is fetched for a plain file: it is cached, sequential or local. -/
inductive AudioFile where
  | streaming (f : AudioFileStreaming)
  | plain (fileSize : Nat)

def getStreamLoaderController (env : Setting) : AudioFile → StreamLoaderController
  | .streaming f => ⟨some f.shared, env.fileSize⟩
  | .plain fileSize => ⟨none, fileSize⟩

inductive Op where
  | progress (event : Event)
  | read (size short : Nat)
  | seek (pos : SeekFrom)
  | rangeAvailable (range : Range)
  | rangeToEndAvailable
  | fetchBlocking (range : Range)
  | fetchNextAndWait (requestLength waitLength : Nat)

/-- What the controller asks for arrives at the fetch in a later step. -/
def step (env : Setting) : AudioFile → Op → AudioFile
  | .streaming f, .progress event => .streaming (f.progress env event)
  | .streaming f, .read size short => .streaming (f.read env size [] short).2
  | .streaming f, .seek pos => .streaming (f.seek env pos).2
  | file, _ => file

/-- The subtractions of an operation return. -/
def Safe (env : Setting) (file : AudioFile) (op : Op) : Prop :=
  match file, op with
  | .streaming f, .progress event => EventSafe env.toEnvironment f.shared event
  | .streaming f, .read size _ => Returns (lengthToRequestChecked env f size)
  | file, .rangeAvailable range =>
    Returns ((getStreamLoaderController env file).rangeAvailable env.word range)
  | file, .rangeToEndAvailable =>
    Returns ((getStreamLoaderController env file).rangeToEndAvailable env.word)
  | file, .fetchBlocking range =>
    Returns ((getStreamLoaderController env file).fetchBlocking env.word range)
  | file, .fetchNextAndWait requestLength waitLength =>
    Returns
      ((getStreamLoaderController env file).fetchNextAndWait env.word requestLength waitLength)
  | _, _ => True

/-- Reads and blocking fetches need no condition. The range to the end is only asked for with the
read position in the file, and a range of a plain file begins in it. -/
def Bounded (env : Setting) (file : AudioFile) (op : Op) : Prop :=
  match file, op with
  | .streaming f, .progress event => EventBounded env.toEnvironment f.shared event
  | .streaming f, .rangeToEndAvailable => f.shared.readPosition ≤ env.fileSize
  | .plain fileSize, .rangeAvailable range => range.start ≤ fileSize
  | _, _ => True

def Unwrapped (env : Setting) (file : AudioFile) (op : Op) : Prop :=
  match file, op with
  | .streaming f, .progress event => EventUnwrapped env.toEnvironment f.shared event
  | _, _ => True

def Fresh (env : Setting) : AudioFile → Prop
  | .streaming f => ∃ length < env.word, f = .opened env ⟨0, length⟩
  | .plain _ => True

def FileOrderly (env : Setting) : AudioFile → Prop
  | .streaming f => Orderly env.toEnvironment f.shared
  | .plain _ => True

variable {env : Setting}

/-- A read compares before it subtracts: this is the length it asks for. -/
theorem lengthToRequestChecked_eq (f : AudioFileStreaming) (size : Nat) :
    let offset := f.position % env.word
    let length := min size (env.fileSize - offset)
    lengthToRequestChecked env f size =
      .ok (if length = 0 then 0 else f.lengthToRequest env offset length) := by
  simp only [lengthToRequestChecked, AudioFileStreaming.lengthToRequest]
  split
  · rename_i behind
    rw [if_pos (by omega)]
  · rename_i inside
    rw [checkedSub_eq (by omega)]
    simp only [Except.bind, Except.map]
    split
    · rfl
    · split
      · rfl
      · rfl

/-- So does a blocking fetch, which keeps the beginning of its range. -/
theorem fetchBlocking_returns (c : StreamLoaderController) (range : Range) :
    ∃ length, c.fetchBlocking env.word range = .ok ⟨range.start, length⟩ := by
  simp only [StreamLoaderController.fetchBlocking]
  split
  · exact ⟨0, rfl⟩
  · split
    · rw [checkedSub_eq (by omega)]
      exact ⟨_, rfl⟩
    · exact ⟨range.length, rfl⟩

variable {file : AudioFile}

theorem safe_iff (orderly : FileOrderly env file) {op : Op} (unwrapped : Unwrapped env file op) :
    Safe env file op ↔ Bounded env file op := by
  have blocking (c : StreamLoaderController) (range : Range) :
      Returns (c.fetchBlocking env.word range) := by
    obtain ⟨length, returned⟩ := @fetchBlocking_returns env c range
    exact ⟨_, returned⟩
  cases file with
  | streaming f =>
    cases op with
    | progress event => exact event_safe_iff orderly unwrapped
    | read size short => exact iff_of_true ⟨_, lengthToRequestChecked_eq f size⟩ trivial
    | seek pos => exact Iff.rfl
    | rangeAvailable range => exact iff_of_true (returns_ok _) trivial
    | rangeToEndAvailable => exact returns_bind_ok.trans checkedSub_returns
    | fetchBlocking range => exact iff_of_true (blocking _ range) trivial
    | fetchNextAndWait requestLength waitLength =>
      exact iff_of_true (returns_map.mpr (blocking _ _)) trivial
  | plain fileSize =>
    cases op with
    | rangeAvailable range => exact returns_map.trans checkedSub_returns
    | rangeToEndAvailable => exact iff_of_true (returns_ok _) trivial
    | fetchBlocking range => exact iff_of_true (blocking _ range) trivial
    | fetchNextAndWait requestLength waitLength => exact iff_of_true (returns_ok _) trivial
    | progress event => exact Iff.rfl
    | read size short => exact Iff.rfl
    | seek pos => exact Iff.rfl

theorem read_moved (f : AudioFileStreaming) (size short : Nat) :
    ∃ position,
      (f.read env size [] short).2.shared = { f.shared with readPosition := position } := by
  have still : ∃ position, f.shared = { f.shared with readPosition := position } := ⟨_, rfl⟩
  simp only [AudioFileStreaming.read]
  split
  · exact still
  · split
    · exact still
    · split
      · exact still
      · split
        · simp only [AudioFileStreaming.readAvailable]
          split
          · exact still
          · exact ⟨_, rfl⟩
        · exact still

theorem seek_moved (f : AudioFileStreaming) (pos : SeekFrom) :
    ∃ position streaming, (f.seek env pos).2.shared =
      { f.shared with readPosition := position, downloadStreaming := streaming } := by
  simp only [AudioFileStreaming.seek, AudioFileStreaming.seekFile]
  repeat' split
  all_goals exact ⟨_, _, rfl⟩

theorem fileOrderly_step (orderly : FileOrderly env file) {op : Op}
    (unwrapped : Unwrapped env file op) (bounded : Bounded env file op) :
    FileOrderly env (step env file op) := by
  cases file with
  | streaming f =>
    cases op with
    | progress event => exact orderly_step orderly env.fileSize_lt unwrapped bounded
    | read size short =>
      obtain ⟨position, moved⟩ := @read_moved env f size short
      simp only [step, FileOrderly, moved]
      exact orderly_moved orderly position f.shared.downloadStreaming
    | seek pos =>
      obtain ⟨position, streaming, moved⟩ := @seek_moved env f pos
      simp only [step, FileOrderly, moved]
      exact orderly_moved orderly position streaming
    | _ => exact orderly
  | plain fileSize => cases op <;> trivial

theorem fileOrderly_of_fresh (fresh : Fresh env file) : FileOrderly env file := by
  cases file with
  | streaming f =>
    obtain ⟨length, fits, rfl⟩ := fresh
    exact orderly_start env.toEnvironment fits
  | plain fileSize => trivial

/-- As long as the ends of what is asked for and sent are machine words, the subtractions of a
download return exactly if ranges begin in the file, the read position is in it where it is
used, and no receiver has got more than it asked for. -/
theorem subtractions_safe_iff (env : Setting) {file : AudioFile} (fresh : Fresh env file)
    (ops : List Op) (unwrapped : Along (step env) (Unwrapped env) file ops) :
    Along (step env) (Safe env) file ops ↔ Along (step env) (Bounded env) file ops := by
  refine along_iff_along ?_ ?_ (fileOrderly_of_fresh fresh) unwrapped
  · intro file op orderly unwrapped
    exact safe_iff orderly unwrapped
  · intro file op orderly unwrapped bounded
    exact fileOrderly_step orderly unwrapped bounded

/-- A file of three bytes, two of which have been asked for. -/
def smallAudio : AudioFile := .streaming (.opened smallSetting ⟨0, 2⟩)

/-- The first receiver gets a body and ends. -/
def received (data : Bytes) : List Op :=
  [.progress (.receiver 0 .acquire), .progress (.receiver 0 (.respond 0 (.partialContent data))),
    .progress (.receiver 0 .streamEnds), .progress (.receiver 0 (.measure 0)),
    .progress (.receiver 0 .giveBack)]

theorem seekToTheEnd_safe :
    Along (step smallSetting) (Safe smallSetting) smallAudio
      (received [1, 2] ++ [.seek (.start 3), .rangeToEndAvailable]) := by
  have fresh : Fresh smallSetting smallAudio := ⟨2, by decide, rfl⟩
  refine (subtractions_safe_iff _ fresh _ ?_).mpr ?_
  · refine ⟨trivial, ?_, trivial, trivial, trivial, trivial, trivial, trivial⟩
    rintro r ⟨⟩
    decide
  · refine ⟨trivial, trivial, trivial, trivial, ?_, trivial, ?_, trivial⟩
    · rintro r ⟨⟩ -
      decide
    · exact Nat.le_refl 3

/-- A seek behind the end of the file, a range that begins there, a body that is one byte too
long, and a range of a plain file that begins behind its end. -/
theorem beyondTheEnd_notSafe :
    (¬ Along (step smallSetting) (Safe smallSetting) smallAudio
      [.seek (.start 4), .rangeToEndAvailable]) ∧
    (¬ Along (step smallSetting) (Safe smallSetting) smallAudio
      [.progress (.command (.fetch ⟨4, 0⟩) none)]) ∧
    (¬ Along (step smallSetting) (Safe smallSetting) smallAudio
      (received [1, 2, 3])) ∧
    ¬ Along (step smallSetting) (Safe smallSetting) (.plain 3)
      [.rangeAvailable ⟨4, 0⟩] := by
  refine ⟨?_, ?_, ?_, ?_⟩
  · rintro ⟨-, ⟨_, returned⟩, -⟩
    cases returned
  · rintro ⟨⟨_, returned⟩, -⟩
    cases returned
  · rintro ⟨-, -, -, -, ends, -⟩
    obtain ⟨_, returned⟩ := ends _ rfl (.inl rfl)
    cases returned
  · rintro ⟨⟨_, returned⟩, -⟩
    cases returned

end Files

end FetchArithmetic
