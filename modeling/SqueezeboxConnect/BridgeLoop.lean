import Mathlib.Algebra.Ring.Nat
import Mathlib.Logic.Relation
import SqueezeboxConnect.HeaderTracker
import SqueezeboxConnect.Outcomes
import SqueezeboxConnect.Words

/-!
# The main loop of the bridge

The bridge takes Ogg pages from its producer through a queue of one and writes
them to at most one HTTP client. One `step` is one round of the loop: it looks
at the loading marker, accepts a client, takes a page and writes some of it.
What the operating system returns during the round is the input of the step.
The messages on standard error are left out. The state also keeps a history:
the pages taken so far, every connection with the bytes written on it, and a
log of what was sent and discarded, by the position of the page.
-/

namespace BridgeLoop

open Streams OggPage HeaderTracker Outcomes Words

def STARTUP_LEAD_MS : Nat := 3000

def u64Max : Nat := 2 ^ 64 - 1

/-- `char::is_whitespace`. -/
def isWhitespace (c : Char) : Bool :=
  let n := c.toNat
  (9 ≤ n && n ≤ 13) || n == 0x20 || n == 0x85 || n == 0xA0 || n == 0x1680 ||
    (0x2000 ≤ n && n ≤ 0x200A) || n == 0x2028 || n == 0x2029 || n == 0x202F || n == 0x205F ||
    n == 0x3000

def trim (text : Text) : Text :=
  ((text.dropWhile isWhitespace).reverse.dropWhile isWhitespace).reverse

/-- The marker as it is compared; `content` is the file, if it can be read. -/
def readMarker (content : Option Text) : Option Text :=
  (content.map trim).filter fun value => !value.isEmpty

def ascii (text : String) : List UInt8 := text.toList.map fun c => UInt8.ofNat c.toNat

/-- A connection that waits to be accepted, and how it is going to behave. -/
structure Socket where
  /-- The socket options can be set. -/
  configured : Bool
  /-- The bytes that can be read before reading fails. -/
  request : List UInt8
  /-- The answer can be written. -/
  answered : Bool
  /-- Writing the cached headers fails behind this many bytes. -/
  replayFails : Option Nat
  /-- The shorter write timeout can be set. -/
  timeoutSet : Bool

inductive HttpError where
  | options
  | read
  | write
  | unsupported
  deriving DecidableEq, Repr

def requestEnded (request : List UInt8) : Bool :=
  (ascii "\r\n\r\n").isSuffixOf request || (ascii "\n\n").isSuffixOf request

def readRequest (request : List UInt8) : List UInt8 → Option (List UInt8)
  | [] => if request.length < 4096 then none else some request
  | b :: rest =>
    if request.length < 4096 then
      let request := request ++ [b]
      if requestEnded request then some request else readRequest request rest
    else some request

def supported (request : List UInt8) : Bool :=
  let first := request.takeWhile fun b => b != 10
  request.length != 4096 &&
    (first == ascii "GET /spotify.ogg HTTP/1.0\r" || first == ascii "GET /spotify.ogg HTTP/1.0" ||
      first == ascii "GET /spotify.ogg HTTP/1.1\r")

def acceptHttp (s : Socket) : Except HttpError Unit :=
  if !s.configured then .error .options
  else
    match readRequest [] s.request with
    | none => .error .read
    | some request =>
      if !s.answered then .error .write
      else if supported request then .ok ()
      else .error .unsupported

inductive Accept where
  | wouldBlock
  | failed
  | socket (s : Socket)

inductive ErrorKind where
  | wouldBlock
  | timedOut
  | interrupted
  | other
  deriving DecidableEq, Repr

/-- What the operating system returns during one round. -/
structure Tick where
  loading : Option Text
  accept : Accept
  /-- The channel has something within its timeout. -/
  ready : Bool
  /-- The stream marker can be written. -/
  markerWritten : Bool
  /-- The clock when a timeline is begun, and when it is compared, in nanoseconds. -/
  now : Nat
  later : Nat
  write : Except ErrorKind Nat

structure Config where
  paced : Bool
  /-- A path is given for the stream marker. -/
  marker : Bool
  /-- A path is given for the loading marker. -/
  loadingMarker : Bool

inductive Exit where
  | eof
  | read (e : ReadError)
  | accept
  | writeTimeout
  | header (e : HeaderError)
  | marker
  deriving DecidableEq

/-- The history of one client behind the HTTP header. -/
structure Connection where
  /-- The pages that had been dealt with when it was accepted. -/
  next : Nat
  /-- The header bytes that were to be replayed. -/
  cache : List UInt8
  sent : List UInt8
  deriving DecidableEq

inductive Event where
  /-- Header bytes of the stream that begins with the page. -/
  | replayed (page : Nat) (bytes : List UInt8)
  | sent (page : Nat) (bytes : List UInt8)
  | discarded (page : Nat)
  deriving DecidableEq

structure Bridge where
  headers : Headers
  client : Option Connection
  pending : Option Page
  pendingHeader : Bool
  offset : Nat
  forwarded : Nat
  /-- The time of the first page and its granule position. -/
  timeline : Option (Nat × Nat)
  generation : Nat
  lastLoading : Option Text
  discardUntilBos : Bool
  exit : Option Exit
  /-- What the producer is still going to send. -/
  queue : List Page
  ending : Except ReadError Unit
  /-- The stream marker file: generation and serial number. -/
  streamMarker : Option (Nat × Nat)
  received : List Page
  closed : List Connection
  log : List Event

namespace Bridge

def new (producer : List Page × Except ReadError Unit) : Bridge where
  headers := .new
  client := none
  pending := none
  pendingHeader := false
  offset := 0
  forwarded := 0
  timeline := none
  generation := 0
  lastLoading := none
  discardUntilBos := false
  exit := none
  queue := producer.1
  ending := producer.2
  streamMarker := none
  received := []
  closed := []
  log := []

variable (b : Bridge)

/-- Every connection, in the order in which they were accepted. -/
def connections : List Connection := b.closed ++ b.client.toList

/-- The stream the pages taken so far end in. -/
def stream : List Page := current Page.isBos b.received

/-- The position of the first page of that stream. -/
def streamStart : Nat := b.received.length - b.stream.length

/-- The position of the pending page, which is the last one taken. -/
def lastPage : Nat := b.received.length - 1

def leave (exit : Exit) : Bridge := { b with exit := some exit }

def closeClient : Bridge :=
  { b with client := none, closed := b.closed ++ b.client.toList }

/-- A loading marker that has not been seen before. -/
def startLoading (loading : Text) : Bridge :=
  { b.closeClient with
    lastLoading := some loading
    discardUntilBos := true
    pending := none
    offset := 0
    timeline := none
    log := b.log ++ if b.pending.isSome then [.discarded b.lastPage] else [] }

variable (config : Config) (tick : Tick)

def checkLoading (b : Bridge) : Bridge :=
  if config.loadingMarker then
    match readMarker tick.loading with
    | none => b
    | some loading => if b.lastLoading = some loading then b else b.startLoading loading
  else b

/-- The client that is accepted now, with the given part of the cache written. -/
def newConnection (sent : List UInt8) : Connection where
  next := b.received.length - if b.pending.isSome then 1 else 0
  cache := b.headers.bytes
  sent := sent

/-- The cached headers cannot be written in full. -/
def failReplay (sent : List UInt8) : Bridge :=
  { b with
    closed := b.closed ++ [b.newConnection sent]
    log := b.log ++ [.replayed b.streamStart sent] }

def replay : Bridge :=
  { b with
    client := some (b.newConnection b.headers.bytes)
    timeline := none
    log := b.log ++ [.replayed b.streamStart b.headers.bytes] }

/-- `error` ends the round, by `continue` or by leaving the loop. -/
def acceptClient (b : Bridge) : Except Bridge Bridge :=
  if b.client.isSome then .ok b
  else
    match tick.accept with
    | .wouldBlock => .ok b
    | .failed => .error (b.leave .accept)
    | .socket s =>
      match acceptHttp s with
      | .error _ => .ok b
      | .ok () =>
        match s.replayFails with
        | some n => .ok (b.failReplay (b.headers.bytes.take n))
        | none =>
          if s.timeoutSet then .ok b.replay
          else .error ((b.failReplay b.headers.bytes).leave .writeTimeout)

/-- The next audio page is held until a client arrives. -/
def hold : Except Bridge Bridge :=
  if b.pending.isSome && b.client.isNone && !b.discardUntilBos then .error b else .ok b

def takePage (p : Page) (rest : List Page) : Bridge :=
  { b with queue := rest, received := b.received ++ [p] }

def discardPage (p : Page) (rest : List Page) : Bridge :=
  { b.takePage p rest with log := b.log ++ [.discarded b.received.length] }

/-- A new logical stream cannot be decoded on the previous connection. -/
def beginStream (p : Page) : Bridge :=
  if p.isBos then { b.closeClient with discardUntilBos := false, timeline := none, pending := none }
  else b

def keepPage (p : Page) (isHeader : Bool) : Bridge :=
  if b.client.isSome || !isHeader then
    { b with pending := some p, pendingHeader := isHeader, offset := 0 }
  else b

def announce (b : Bridge) : Except Bridge Bridge :=
  let b := { b with generation := b.generation + 1 }
  match config.marker, b.headers.serial with
  | true, some serial =>
    if tick.markerWritten then .ok { b with streamMarker := some (b.generation, serial) }
    else .error (b.leave .marker)
  | _, _ => .ok b

def handlePage (b : Bridge) (p : Page) (rest : List Page) : Except Bridge Bridge :=
  if b.discardUntilBos && !p.isBos then .error (b.discardPage p rest)
  else
    let isHeader := p.isBos || b.headers.packets < 3
    let hadHeaders := b.headers.packets == 3
    let b := (b.takePage p rest).beginStream p
    match b.headers.observe p with
    | .error e => .error (b.leave (.header e))
    | .ok headers =>
      let b := { b with headers := headers }
      (if !hadHeaders && headers.packets == 3 then b.announce config tick else .ok b).bind fun b =>
        .ok (b.keepPage p isHeader)

def receive (b : Bridge) : Except Bridge Bridge :=
  if b.pending.isSome then .ok b
  else if !tick.ready then .error b
  else
    match b.queue with
    | p :: rest => b.handlePage config tick p rest
    | [] =>
      match b.ending with
      | .ok () => .error (b.leave .eof)
      | .error e => .error (b.leave (.read e))

/-- When a page is due behind the first one, in nanoseconds. -/
def due (granule base rate : Nat) : Nat :=
  (min ((granule - base) * 1000) u64Max / rate - STARTUP_LEAD_MS) * 1000000

/-- Write as much of the pending page as the socket takes. -/
def advance (p : Page) (c : Connection) (n : Nat) : Bridge :=
  let bytes := (p.bytes.drop b.offset).take n
  let b := { b with
    client := some { c with sent := c.sent ++ bytes }
    offset := b.offset + bytes.length
    forwarded := b.forwarded + bytes.length
    log := b.log ++ [.sent b.lastPage bytes] }
  if b.offset = p.bytes.length then { b with pending := none, offset := 0 } else b

/-- A header page is in the cache already; an audio page is kept. -/
def disconnect : Bridge :=
  { b.closeClient with offset := 0, pending := if b.pendingHeader then none else b.pending }

def writePending (b : Bridge) (p : Page) (c : Connection) : Bridge :=
  match tick.write with
  | .ok n => if 0 < n then b.advance p c n else b.disconnect
  | .error .wouldBlock => b
  | .error .timedOut => b
  | .error .interrupted => b
  | .error .other => b.disconnect

def forward (b : Bridge) : Bridge :=
  match b.pending, b.client with
  | some p, some c =>
    if config.paced && !b.pendingHeader && b.offset == 0 && p.granule != u64Max then
      let timeline := b.timeline.getD (tick.now, p.granule)
      let b := { b with timeline := some timeline }
      if tick.later - timeline.1 ≤ due p.granule timeline.2 b.headers.rate then b
      else b.writePending tick p c
    else b.writePending tick p c
  | _, _ => b

def round (b : Bridge) : Except Bridge Bridge := do
  let b ← (b.checkLoading config tick).acceptClient tick
  let b ← b.hold
  let b ← b.receive config tick
  return b.forward config tick

def step (b : Bridge) (tick : Tick) : Bridge :=
  if b.exit.isSome then b
  else
    match b.round config tick with
    | .ok b => b
    | .error b => b

end Bridge

end BridgeLoop
