import SqueezeboxConnect.PlayerGuarantees
import SqueezeboxConnect.ClientStream
import SqueezeboxConnect.WatcherRuns

/-!
# The radio as a whole

The engine plays tracks into a pipe and runs the metadata helper for its events.
The bridge takes the pages from the pipe and serves them to the local playback,
which the applet starts and stops by what it reads from the files of the helper
and from the stream marker of the bridge. A step is one phase of the engine, one
file operation of the helper, one round of the bridge, or one read or reaction of
the applet, in any order. The bridge is given all pages the engine is ever going
to write, and can take a page once the engine has written it; the pipe is held
open, so that it has no end.
-/

namespace RadioSystem

open AudioDecoder PlayerThread PlayerGuarantees OggPage BridgeLoop Metadata Watcher WatcherRuns
  Words

/-- The file that `write_marker` renames into place. -/
def markerText (marker : Option (Nat × Nat)) : Option Text :=
  marker.map fun m => decimal m.1 ++ ':' :: decimal m.2 ++ ['\n']

/-- The options the service starts the bridge with. -/
def config : Config := ⟨true, true, true⟩

/-- The connection of the local playback. -/
inductive Link where
  | none
  /-- The bridge has yet to accept it. -/
  | waiting
  | accepted
  deriving DecidableEq

structure Radio (Uri D S : Type) where
  player : Process Uri D S (PlayerInternal Uri D S)
  /-- What the helpers of the events so far have left to do. -/
  helpers : List (List FileOp)
  files : Files
  bridge : Bridge
  applet : Applet
  /-- What the watcher has read of its four files in the present tick. -/
  reading : List (Option Text)
  link : Link

inductive Input (Uri D : Type) where
  | engine (input : PlayerThread.Input Uri D)
  | helper
  /-- The helper ends with an error. -/
  | helperFails
  /-- `ours` tells that a socket in the tick is the connection of the local playback. -/
  | bridge (tick : Tick) (ours : Bool)
  | read
  | watch (players : Players)
  /-- The timer that starts the playback when the applet is loaded. -/
  | boot (players : Players)

section Step

variable {Uri D S : Type}

def isPlaying : Process Uri D S (PlayerInternal Uri D S) → Bool
  | .ok p => p.state.isPlaying
  | .error _ => false

def sinkOf : Process Uri D S (PlayerInternal Uri D S) → S
  | .ok p => p.sink
  | .error e => e.player.sink

def helpersFor (catalogue : Catalogue Uri)
    (before after : Process Uri D S (PlayerInternal Uri D S)) :
    List (List FileOp) :=
  (((eventsOf after).drop (eventsOf before).length).filterMap (handleEvent catalogue)).map main

/-- The listener is asked for a client, and has one. -/
def takes (b : Bridge) (tick : Tick) : Bool :=
  b.exit.isNone && (b.checkLoading config tick).client.isNone &&
    match tick.accept with
    | .socket _ => true
    | _ => false

/-- The connection that is served is the one that was there before. -/
def serves (b : Bridge) (closed : List Connection) : Bool := b.client.isSome && b.closed == closed

/-- What becomes of the connection in a round of the bridge. -/
def linkAfter (b b' : Bridge) (tick : Tick) (ours : Bool) : Link → Link
  | .none => .none
  | .waiting =>
    if ours && takes b tick then
      if serves b' (b.checkLoading config tick).closed then .accepted else .none
    else .waiting
  | .accepted => if serves b' b.closed then .accepted else .none

/-- What becomes of the connection in a call of the applet. -/
def follow (link : Link) : Call → Link
  | .start true => .waiting
  | .stop true => .none
  | _ => link

def sampleOf : List (Option Text) → Option Sample
  | [loading, stream, playbackState, volume] => some {
      loading := readSmall loading
      stream := readSmall stream
      playbackState := readSmall playbackState
      volume := (readSmall volume).bind tonumber }
  | _ => none

namespace Radio

/-- The content of the file that the watcher reads next. -/
def nextRead (r : Radio Uri D S) : Option Text :=
  match r.reading.length with
  | 0 => r.files .loading
  | 1 => markerText r.bridge.streamMarker
  | 2 => r.files .state
  | _ => r.files .volume

variable [DecidableEq Uri] [Decoder D] [Sink S]

/-- `written` are the pages that are complete in what the sink was given. -/
def fed (written : S → List Page) (r : Radio Uri D S) : Bool :=
  r.bridge.queue.head?.isSome &&
    (written (sinkOf r.player))[r.bridge.received.length]? == r.bridge.queue.head?

def tickOf (written : S → List Page) (r : Radio Uri D S) (tick : Tick) : Tick :=
  { tick with loading := r.files .loading, ready := tick.ready && r.fed written }

def step (written : S → List Page) (catalogue : Catalogue Uri) (r : Radio Uri D S) :
    Input Uri D → Radio Uri D S
  | .engine input =>
    let player := PlayerThread.step r.player input
    { r with player := player, helpers := r.helpers ++ helpersFor catalogue r.player player }
  | .helper =>
    match r.helpers with
    | [] => r
    | [] :: rest => { r with helpers := rest }
    | (op :: ops) :: rest => { r with files := op.apply r.files, helpers := ops :: rest }
  | .helperFails => { r with helpers := r.helpers.tail }
  | .bridge tick ours =>
    let tick := r.tickOf written tick
    let bridge := r.bridge.step config tick
    { r with bridge := bridge, link := linkAfter r.bridge bridge tick ours r.link }
  | .read => { r with reading := (r.reading ++ [r.nextRead]).take 4 }
  | .watch players =>
    match sampleOf r.reading with
    | none => r
    | some d =>
      let applet := r.applet.watch players d
      { r with
        applet := applet
        reading := []
        link := (newCalls r.applet applet).foldl follow r.link }
  | .boot players =>
    let applet := r.applet.callStart players
    { r with applet := applet, link := (newCalls r.applet applet).foldl follow r.link }

end Radio

def start (player : PlayerInternal Uri D S) (pages : List Page) : Radio Uri D S where
  player := .ok player
  helpers := []
  files := noFiles
  bridge := .new (pages, .ok ())
  applet := .init
  reading := []
  link := .none

/-- The bridge holds an audio page for a client, the engine is playing, and the applet has
seen all there is to see without connecting. -/
structure Stuck (r : Radio Uri D S) : Prop where
  running : r.bridge.exit = none
  pending : r.bridge.pending.isSome = true
  audio : r.bridge.pendingHeader = false
  noClient : r.bridge.client = none
  keeps : r.bridge.discardUntilBos = false
  playing : isPlaying r.player = true
  stopped : r.link = .none
  sameMarker : r.applet.lastStreamMarker = readSmall (markerText r.bridge.streamMarker)
  sameState : r.applet.lastPlaybackState = readSmall (r.files .state)

end Step

section Marker

theorem decimal_ne_nil (n : Nat) : decimal n ≠ [] := Nat.toDigits_ne_nil

theorem isDigit_decimal {n : Nat} {c : Char} (inside : c ∈ decimal n) : c.isDigit = true :=
  Nat.isDigit_of_mem_toDigits (by omega) (by omega) inside

theorem decimal_injective {m n : Nat} (same : decimal m = decimal n) : m = n := by
  have value : ∀ k, Nat.ofDigitChars 10 (decimal k) 0 = k :=
    fun k => Nat.ofDigitChars_toDigits (by omega) (by omega)
  rw [← value m, same, value n]

theorem isSpace_digit {c : Char} (digit : c.isDigit = true) : isSpace c = false := by
  simp only [Char.isDigit, Bool.and_eq_true, decide_eq_true_eq] at digit
  have low : 48 ≤ c.toNat := digit.1
  simp only [isSpace, Bool.or_eq_false_iff, Bool.and_eq_false_iff, beq_eq_false_iff_ne,
    decide_eq_false_iff_not]
  omega

/-- The marker is read without its line end. -/
theorem readSmall_marker (generation serial : Nat) :
    readSmall (markerText (some (generation, serial))) =
      some (decimal generation ++ ':' :: decimal serial) := by
  have split : decimal serial = (decimal serial).dropLast ++
      [(decimal serial).getLast (decimal_ne_nil serial)] :=
    (List.dropLast_append_getLast _).symm
  have digit : isSpace ((decimal serial).getLast (decimal_ne_nil serial)) = false :=
    isSpace_digit (isDigit_decimal (List.getLast_mem _))
  have lineEnd : isSpace '\n' = true := by decide
  simp only [readSmall, markerText, Option.map_some]
  rw [split]
  simp [digit, lineEnd]

theorem marker_generation {g s g' s' : Nat}
    (same : readSmall (markerText (some (g, s))) = readSmall (markerText (some (g', s')))) :
    g = g' := by
  have digits : ∀ n, ∀ c ∈ decimal n, (c != ':') = true := by
    intro n c inside
    have digit := isDigit_decimal inside
    rw [bne_iff_ne]
    rintro rfl
    revert digit
    decide
  have front : ∀ n m : Nat, (decimal n ++ ':' :: decimal m).takeWhile (· != ':') = decimal n := by
    intro n m
    rw [List.takeWhile_append_of_pos (digits n)]
    simp
  rw [readSmall_marker, readSmall_marker] at same
  apply decimal_injective
  rw [← front g s, Option.some.inj same, front]

end Marker

end RadioSystem
