import SqueezeboxConnect.AudioRanges
import SqueezeboxConnect.Words

/-!
# Fetching an audio file

One task handles the commands of the stream loader and the messages of the
receivers, and prefetches when too little is pending. Every receiver is a task
of its own: it waits for a download slot, takes responses, and gives back what
it did not receive. All of them share the sets of requested and downloaded
ranges.

An event is one step of one task, so a list of events is an interleaving.
Timing, the network and the file system are inputs of the events. Durations are
in nanoseconds. The number of bytes that should be pending is computed with
floating-point numbers and is a parameter.
-/

namespace AudioFetch

open AudioRanges Words

structure AudioFetchParams where
  minimumDownloadSize : Nat
  minimumThroughput : Nat
  initialPingTimeEstimate : Nat
  maximumAssumedPingTime : Nat

/-- What does not change during a download. -/
structure Environment where
  /-- The number of values of a `usize`. -/
  word : Nat
  fileSize : Nat
  params : AudioFetchParams
  /-- From the ping time and the throughput. -/
  desiredPendingBytes : Nat → Nat → Nat

structure PartialFileData where
  offset : Nat
  data : Bytes

def PartialFileData.range (part : PartialFileData) : Range := ⟨part.offset, part.data.length⟩

inductive ReceivedData where
  | throughput (bytes : Nat)
  | responseTime (duration : Nat)
  | data (part : PartialFileData)

section Receivers

/-- Where `receive_data` is; `measured` and `returned` are the points before and after the missing
range is taken from the requested ones. -/
inductive ReceiverPhase where
  | waiting
  | receiving
  | ended
  | measured
  | returned
  deriving DecidableEq

structure Receiver where
  /-- The response that was taken when the file was opened is still there. -/
  initialResponse : Bool
  length : Nat
  offset : Nat
  actualLength : Nat
  measurePingTime : Bool
  measureThroughput : Bool
  phase : ReceiverPhase

def Receiver.new (initialResponse : Bool) (request : Range) : Receiver :=
  { initialResponse := initialResponse, length := request.length, offset := request.start
    actualLength := 0, measurePingTime := true, measureThroughput := true, phase := .waiting }

/-- A response that has arrived. -/
inductive Response where
  | otherStatus
  | brokenBody
  | partialContent (data : Bytes)

def millis (duration : Nat) : Nat := duration / 1000000

namespace Receiver

def takeInitial (r : Receiver) : Receiver :=
  if r.initialResponse then
    { r with initialResponse := false, measurePingTime := false, measureThroughput := false }
  else r

/-- The first response time that can be measured is reported. -/
def ping (r : Receiver) (elapsed : Nat) : Receiver × List ReceivedData :=
  if r.measurePingTime ∧ 0 < millis elapsed then
    ({ r with measurePingTime := false }, [.responseTime elapsed])
  else (r, [])

/-- One round of the loop; only a body with status 206 does not end it. -/
def respond (word : Nat) (r : Receiver) (elapsed : Nat) (response : Response) :
    Receiver × List ReceivedData :=
  let (r, messages) := r.takeInitial.ping elapsed
  match response with
  | .partialContent data =>
    ({ r with
        actualLength := wrappingAdd word r.actualLength data.length
        offset := wrappingAdd word r.offset data.length },
      messages ++ [.data ⟨r.offset, data⟩])
  | .otherStatus => ({ r with phase := .ended }, messages)
  | .brokenBody => ({ r with phase := .ended }, messages)

def measure (word : Nat) (r : Receiver) (elapsed : Nat) : List ReceivedData :=
  if r.measureThroughput ∧ 0 < r.actualLength ∧ 0 < millis elapsed then
    [.throughput (1000 * r.actualLength / millis elapsed % word)]
  else []

def bytesRemaining (word : Nat) (r : Receiver) : Nat := wrappingSub word r.length r.actualLength

def missingRange (word : Nat) (r : Receiver) : Range := ⟨r.offset, r.bytesRemaining word⟩

/-- The range the receiver still has to receive or to give back. -/
def outstanding (word : Nat) (r : Receiver) : Range :=
  if r.phase = .returned then ⟨r.offset, 0⟩ else r.missingRange word

end Receiver

end Receivers

/-- Where the loop of `audio_file_fetch` is. -/
inductive Phase where
  | select
  | check
  | prefetch (offset length : Nat)
  | stopped
  deriving DecidableEq

structure State where
  requested : RangeSet
  downloaded : RangeSet
  downloadStreaming : Bool
  downloadSlots : Nat
  pingTimeMs : Nat
  readPosition : Nat
  throughput : Nat
  /-- The bytes of the output file by their positions. -/
  output : Option (Nat → UInt8)
  completeTx : Bool
  /-- The file that the other end of `complete_tx` has got. -/
  handed : Option (Nat → UInt8)
  networkResponseTimes : List Nat
  queue : List ReceivedData
  receivers : List Receiver
  phase : Phase

/-- The state behind the first `spawn`. -/
def start (env : Environment) (initialRequest : Range) : State :=
  let requestedRange : Range :=
    ⟨initialRequest.start, wrappingAdd env.word initialRequest.start initialRequest.length⟩
  { requested := addRange env.word requestedRange []
    downloaded := []
    downloadStreaming := false
    downloadSlots := 1
    pingTimeMs := 0
    readPosition := 0
    throughput := 0
    output := some fun _ => 0
    completeTx := true
    handed := none
    networkResponseTimes := []
    queue := []
    receivers := [.new true initialRequest]
    phase := .select }

section Downloading

variable (env : Environment)

/-- The length that `download_range` takes before it looks at the end of the file. -/
def grownLength (s : State) (length : Nat) : Nat :=
  let length :=
    if length < env.params.minimumDownloadSize then env.params.minimumDownloadSize else length
  if s.downloadStreaming then max length s.throughput else length

/-- The length that `download_range` asks for, before the parts that are there are subtracted. -/
def downloadLength (s : State) (offset length : Nat) : Nat :=
  let length := grownLength env s length
  if env.fileSize < wrappingAdd env.word offset length then
    wrappingSub env.word env.fileSize offset
  else length

def rangesToRequest (s : State) (offset length : Nat) : RangeSet :=
  let ranges := addRange env.word ⟨offset, downloadLength env s offset length⟩ []
  let ranges := subtractRangeSet env.word ranges s.downloaded
  subtractRangeSet env.word ranges s.requested

/-- The loop over the ranges; `failsAt` is the first one whose request cannot be made. -/
def downloadRange (s : State) (offset length : Nat) (failsAt : Option Nat) (next : Phase) : State :=
  let ranges := rangesToRequest env s offset length
  let spawned := ranges.take (failsAt.getD ranges.length)
  { s with
    requested :=
      spawned.foldl (fun requested range => addRange env.word range requested) s.requested
    receivers := s.receivers ++ spawned.map (.new false)
    phase := if spawned.length = ranges.length then next else .stopped }

def missingData (s : State) : RangeSet :=
  let missing := addRange env.word ⟨0, env.fileSize⟩ []
  let missing := subtractRangeSet env.word missing s.downloaded
  subtractRangeSet env.word missing s.requested

/-- The range behind the read position. -/
def tailRange (s : State) : Range :=
  ⟨s.readPosition, wrappingSub env.word env.fileSize s.readPosition⟩

def tailEnd (s : State) : RangeSet :=
  intersection env.word (addRange env.word (tailRange env s) []) (missingData env s)

/-- The offset and the length that `pre_fetch_more_data` downloads. -/
def preFetchMoreData (s : State) (bytes : Nat) : Option (Nat × Nat) :=
  match tailEnd env s with
  | range :: _ => some (range.start, min range.length bytes)
  | [] =>
    match missingData env s with
    | range :: _ => some (range.start, min range.length bytes)
    | [] => none

def pingTime (s : State) : Nat :=
  if 0 < s.pingTimeMs then s.pingTimeMs * 1000000 else env.params.initialPingTimeEstimate

def bytesPending (s : State) : Nat := len env.word (minus env.word s.requested s.downloaded)

def desiredPending (s : State) : Nat := env.desiredPendingBytes (pingTime env s) s.throughput

/-- Too little is pending, and `pre_fetch_more_data` is called. -/
def Prefetches (s : State) : Prop :=
  s.downloadStreaming = true ∧ 0 < s.downloadSlots ∧ bytesPending env s < desiredPending env s

instance (s : State) : Decidable (Prefetches env s) := inferInstanceAs (Decidable (_ ∧ _))

def checkPending (s : State) : State :=
  if Prefetches env s then
    match preFetchMoreData env s (desiredPending env s - bytesPending env s) with
    | some (offset, length) => { s with phase := .prefetch offset length }
    | none => { s with phase := .select }
  else { s with phase := .select }

end Downloading

section Handling

/-- The results of the operations on the output file and of the last `send`. -/
structure Io where
  /-- The number of bytes after which writing fails. -/
  failsAt : Option Nat
  rewinds : Bool
  listening : Bool

def write (output : Nat → UInt8) (offset : Nat) (data : Bytes) : Nat → UInt8 :=
  fun p => if p < offset then output p else data[p - offset]?.getD (output p)

def finish (s : State) (io : Io) : State :=
  { s with
    output := none
    completeTx := false
    handed := if io.rewinds ∧ s.completeTx ∧ io.listening then s.output else s.handed
    phase := .stopped }

def median (times : List Nat) : Nat :=
  match times with
  | [a, b] => (a + b) / 2
  | [a, b, c] => max (min a b) (min (max a b) c)
  | times => times.headD 0

def handleThroughput (env : Environment) (s : State) (throughput : Nat) : State :=
  let throughput := max throughput env.params.minimumThroughput
  let average :=
    if 0 < s.throughput then wrappingAdd env.word s.throughput throughput / 2 else throughput
  { s with throughput := average, phase := .check }

def handleResponseTime (env : Environment) (s : State) (responseTime : Nat) : State :=
  let responseTime := min responseTime env.params.maximumAssumedPingTime
  let kept := s.networkResponseTimes.drop (s.networkResponseTimes.length - 2)
  let times := kept ++ [responseTime]
  { s with
    networkResponseTimes := times
    pingTimeMs := millis (median times) % env.word
    phase := .check }

def handlePart (env : Environment) (s : State) (part : PartialFileData) (io : Io) : State :=
  match s.output with
  | none => { s with phase := .stopped }
  | some output =>
    match io.failsAt with
    | some n =>
      let output := write output part.offset (part.data.take n)
      { s with output := some output, phase := .stopped }
    | none =>
      let output := write output part.offset part.data
      let downloaded := addRange env.word part.range s.downloaded
      let s := { s with output := some output, downloaded := downloaded }
      if env.fileSize ≤ containedLengthFromValue env.word downloaded 0 then finish s io
      else { s with phase := .check }

def handleFileData (env : Environment) (s : State) (io : Io) : ReceivedData → State
  | .throughput bytes => handleThroughput env s bytes
  | .responseTime duration => handleResponseTime env s duration
  | .data part => handlePart env s part io

end Handling

inductive ReceiverAction where
  | acquire
  | respond (elapsed : Nat) (response : Response)
  | streamEnds
  | measure (elapsed : Nat)
  | giveBack
  | leave

def receiverStep (env : Environment) (s : State) (i : Nat) (r : Receiver) : ReceiverAction → State
  | .acquire =>
    if r.phase = .waiting ∧ 0 < s.downloadSlots then
      { s with
        receivers := s.receivers.set i { r with phase := .receiving }
        downloadSlots := s.downloadSlots - 1 }
    else s
  | .respond elapsed response =>
    if r.phase = .receiving then
      { s with
        receivers := s.receivers.set i (r.respond env.word elapsed response).1
        queue := s.queue ++ (r.respond env.word elapsed response).2 }
    else s
  | .streamEnds =>
    if r.phase = .receiving ∧ r.initialResponse = false then
      { s with receivers := s.receivers.set i { r with phase := .ended } }
    else s
  | .measure elapsed =>
    if r.phase = .ended then
      { s with
        receivers := s.receivers.set i { r with phase := .measured }
        queue := s.queue ++ r.measure env.word elapsed }
    else s
  | .giveBack =>
    if r.phase = .measured then
      { s with
        receivers := s.receivers.set i { r with phase := .returned }
        requested :=
          if 0 < r.bytesRemaining env.word then
            subtractRange env.word (r.missingRange env.word) s.requested
          else s.requested }
    else s
  | .leave =>
    if r.phase = .returned then
      { s with receivers := s.receivers.eraseIdx i, downloadSlots := s.downloadSlots + 1 }
    else s

inductive StreamLoaderCommand where
  | fetch (request : Range)
  | close

inductive Event where
  | setDownloadStreaming (streaming : Bool)
  | setReadPosition (position : Nat)
  | receiver (i : Nat) (action : ReceiverAction)
  | command (command : StreamLoaderCommand) (failsAt : Option Nat)
  | message (io : Io)
  | check
  | prefetch (failsAt : Option Nat)

/-- A step of the running fetch; an event that cannot happen changes nothing. -/
def step (env : Environment) (s : State) (event : Event) : State :=
  match s.phase, event with
  | .stopped, _ => s
  | _, .setDownloadStreaming streaming => { s with downloadStreaming := streaming }
  | _, .setReadPosition position => { s with readPosition := position % env.word }
  | _, .receiver i action =>
    match s.receivers[i]? with
    | none => s
    | some r => receiverStep env s i r action
  | .select, .command (.fetch request) failsAt =>
    downloadRange env s request.start request.length failsAt .check
  | .select, .command .close _ => { s with phase := .stopped }
  | .select, .message io =>
    match s.queue with
    | [] => s
    | message :: rest => handleFileData env { s with queue := rest } io message
  | .check, .check => checkPending env s
  | .prefetch offset length, .prefetch failsAt => downloadRange env s offset length failsAt .select
  | _, _ => s

end AudioFetch
