import SqueezeboxConnect.AudioDecoder

/-!
# The player thread

`PlayerInternal` and its poll loop. One turn of the loop handles at most one
command and then runs the loader, preload, packet and suggestion phases; each
of them is a step here, so that a run is a list of commands and phases.

`exit(1)` aborts with the reason and the player as it was at that moment.
Track loading is the environment's: polling a loader gives an arbitrary
result. Normalisation is floating-point sample processing and appears only as
the `attenuate` function of the configuration.
-/

namespace PlayerThread

open AudioDecoder

variable {Uri D S : Type}

inductive SinkStatus where
  | running
  | closed
  | temporarilyClosed
  deriving DecidableEq

structure PlayerConfig where
  passthrough : Bool
  gapless : Bool
  /-- In milliseconds. -/
  positionUpdateInterval : Option Nat
  attenuate : List Float → List Float

/-- The fields of the audio item that the player reads. -/
structure AudioItem (Uri : Type) where
  trackId : Uri
  durationMs : UInt32
  isExplicit : Bool

/-- `shared` tells whether the controller belongs to a download in progress;
the sequential reader of the streaming-only build has none. -/
structure StreamLoaderController where
  shared : Bool

structure PlayerLoadedTrackData (Uri D : Type) where
  decoder : D
  streamLoaderController : StreamLoaderController
  audioItem : AudioItem Uri
  bytesPerSecond : Nat
  durationMs : UInt32
  streamPositionMs : UInt32
  isExplicit : Bool

/-- The future returned by `load_track`, with its fused `is_terminated` flag. -/
structure Loader (Uri : Type) where
  trackId : Uri
  positionMs : UInt32
  terminated : Bool

inductive PlayerPreload (Uri D : Type) where
  | none
  | loading (trackId : Uri) (loader : Loader Uri)
  | ready (trackId : Uri) (loadedTrack : PlayerLoadedTrackData Uri D)

/-- `Paused` and `Playing` carry the fields of the loaded track as one value. -/
inductive PlayerState (Uri D : Type) where
  | stopped
  | loading (trackId : Uri) (playRequestId : UInt64) (startPlayback : Bool) (loader : Loader Uri)
  | paused (trackId : Uri) (playRequestId : UInt64) (track : PlayerLoadedTrackData Uri D)
      (suggestedToPreloadNextTrack : Bool)
  | playing (trackId : Uri) (playRequestId : UInt64) (track : PlayerLoadedTrackData Uri D)
      (reportedNominalStartTime : Option Nat) (suggestedToPreloadNextTrack : Bool)
  | endOfTrack (trackId : Uri) (playRequestId : UInt64) (loadedTrack : PlayerLoadedTrackData Uri D)
  | invalid

structure QueueTrack where
  uri : String
  provider : String
  deriving DecidableEq

inductive PlayerEvent (Uri : Type) where
  | playRequestIdChanged (playRequestId : UInt64)
  | stopped (playRequestId : UInt64) (trackId : Uri)
  | loading (playRequestId : UInt64) (trackId : Uri) (positionMs : UInt32)
  | preloading (trackId : Uri)
  | playing (playRequestId : UInt64) (trackId : Uri) (positionMs : UInt32)
  | paused (playRequestId : UInt64) (trackId : Uri) (positionMs : UInt32)
  | timeToPreloadNextTrack (playRequestId : UInt64) (trackId : Uri)
  | endOfTrack (playRequestId : UInt64) (trackId : Uri)
  | unavailable (playRequestId : UInt64) (trackId : Uri)
  | volumeChanged (volume : UInt16)
  | positionCorrection (playRequestId : UInt64) (trackId : Uri) (positionMs : UInt32)
  | positionChanged (playRequestId : UInt64) (trackId : Uri) (positionMs : UInt32)
  | seeked (playRequestId : UInt64) (trackId : Uri) (positionMs : UInt32)
  | trackChanged (audioItem : AudioItem Uri)
  | sessionConnected (connectionId userName : String)
  | sessionDisconnected (connectionId userName : String)
  | sessionClientChanged (clientId clientName clientBrandName clientModelName : String)
  | shuffleChanged (shuffle : Bool)
  | repeatChanged (context track : Bool)
  | autoPlayChanged (autoPlay : Bool)
  | filterExplicitContentChanged (filter : Bool)
  | setQueue (contextUri : String) (currentTrack : Option QueueTrack)
      (nextTracks prevTracks : List QueueTrack)

inductive PlayerCommand (Uri : Type) where
  | load (trackId : Uri) (play : Bool) (positionMs : UInt32)
  | preload (trackId : Uri)
  | play
  | pause
  | stop
  | seek (positionMs : UInt32)
  | setSession
  | addEventSender
  | setSinkEventCallback
  | emitVolumeChangedEvent (volume : UInt16)
  | setAutoNormaliseAsAlbum (setting : Bool)
  | emitSessionDisconnectedEvent (connectionId userName : String)
  | emitSessionConnectedEvent (connectionId userName : String)
  | emitSessionClientChangedEvent (clientId clientName clientBrandName clientModelName : String)
  | emitFilterExplicitContentChangedEvent (filter : Bool)
  | emitShuffleChangedEvent (shuffle : Bool)
  | emitRepeatChangedEvent (context track : Bool)
  | emitAutoPlayChangedEvent (autoPlay : Bool)
  | emitSetQueueEvent (contextUri : String) (currentTrack : Option QueueTrack)
      (nextTracks prevTracks : List QueueTrack)

/-- `events` is everything `send_event` was called with, oldest first. -/
structure PlayerInternal (Uri D S : Type) where
  config : PlayerConfig
  state : PlayerState Uri D
  preload : PlayerPreload Uri D
  sink : S
  sinkStatus : SinkStatus
  autoNormaliseAsAlbum : Bool
  playRequestIdGenerator : UInt64
  lastProgressUpdate : Nat
  events : List (PlayerEvent Uri)

/-- The places of the source that end the process. -/
inductive ExitReason where
  | isPlaying
  | decoder
  | playingToEndOfTrack
  | pausedToPlaying
  | playingToPaused
  | startPlaybackUnchanged
  | pollNotPlaying
  | sinkStop
  | handlePlayerStop
  | handlePacket
  deriving DecidableEq

structure Exit (Uri D S : Type) where
  reason : ExitReason
  player : PlayerInternal Uri D S

/-- A computation of the player thread: it returns, or the process ends. -/
abbrev Process (Uri D S : Type) := Except (Exit Uri D S)

inductive PlayerError where
  /-- `handle_command_load` found the state invalid on entry. -/
  | loadFromInvalidState
  /-- `start_playback` left an invalid state behind. -/
  | startPlaybackInvalid
  | aborted (e : DecoderError)
  | fetch
  deriving DecidableEq

abbrev PlayerResult := Except PlayerError Unit

/-- What a handler reads from outside: the clock in milliseconds and the
answers of a stream loader controller that belongs to a download. -/
structure Env where
  now : Nat
  rangeToEndAvailable : Bool
  fetchNextAndWait : Bool

/-- Polling a loader. -/
inductive LoaderPoll (Uri D : Type) where
  | pending
  | ready (loadedTrack : PlayerLoadedTrackData Uri D)
  | failed

/-- `Instant::checked_sub`. -/
def checkedSub (now : Nat) (positionMs : UInt32) : Option Nat :=
  if positionMs.toNat ≤ now then some (now - positionMs.toNat) else none

namespace PlayerState

def isPlaying : PlayerState Uri D → Bool
  | playing .. => true
  | _ => false

def isInvalid : PlayerState Uri D → Bool
  | invalid => true
  | _ => false

def playRequestId : PlayerState Uri D → Option UInt64
  | loading _ id .. => some id
  | paused _ id .. => some id
  | playing _ id .. => some id
  | endOfTrack _ id _ => some id
  | stopped => none
  | invalid => none

end PlayerState

namespace PlayerInternal

variable (p : PlayerInternal Uri D S)

def sendEvent (event : PlayerEvent Uri) : PlayerInternal Uri D S :=
  { p with events := p.events ++ [event] }

/-- `self.state.is_playing()`, which ends the process in an invalid state. -/
def checkPlaying : Process Uri D S Bool :=
  if p.state.isInvalid then .error ⟨.isPlaying, p⟩ else .ok p.state.isPlaying

/-- The transition moves the state out with `mem::replace(Invalid)` first. -/
def playingToEndOfTrack : Process Uri D S (PlayerInternal Uri D S) :=
  match p.state with
  | .playing trackId playRequestId track _ _ =>
    .ok { p with state := .endOfTrack trackId playRequestId track }
  | _ => .error ⟨.playingToEndOfTrack, { p with state := .invalid }⟩

def pausedToPlaying (env : Env) : Process Uri D S (PlayerInternal Uri D S) :=
  match p.state with
  | .paused trackId playRequestId track suggested =>
    .ok { p with state := .playing trackId playRequestId track
                    (checkedSub env.now track.streamPositionMs) suggested }
  | _ => .error ⟨.pausedToPlaying, { p with state := .invalid }⟩

def playingToPaused : Process Uri D S (PlayerInternal Uri D S) :=
  match p.state with
  | .playing trackId playRequestId track _ suggested =>
    .ok { p with state := .paused trackId playRequestId track suggested }
  | _ => .error ⟨.playingToPaused, { p with state := .invalid }⟩

section Sinks
variable [Sink S]

def ensureSinkStopped (temporarily : Bool) : Process Uri D S (PlayerInternal Uri D S) :=
  match p.sinkStatus with
  | .running =>
    match Sink.stop p.sink with
    | (.ok _, sink) =>
      .ok { p with
        sink := sink
        sinkStatus := if temporarily then .temporarilyClosed else .closed }
    | (.error _, sink) => .error ⟨.sinkStop, { p with sink := sink }⟩
  | .temporarilyClosed =>
    if temporarily then .ok p else .ok { p with sinkStatus := .closed }
  | .closed => .ok p

def handlePause : Process Uri D S (PlayerInternal Uri D S) :=
  match p.state with
  | .paused .. => ensureSinkStopped p false
  | .playing trackId playRequestId track _ _ => do
    let p ← playingToPaused p
    let p ← ensureSinkStopped p false
    return p.sendEvent (.paused playRequestId trackId track.streamPositionMs)
  | .loading trackId playRequestId _ loader =>
    .ok { p with state := .loading trackId playRequestId false loader }
  | _ => .ok p

def ensureSinkRunning : Process Uri D S (PlayerInternal Uri D S) :=
  if p.sinkStatus = .running then .ok p
  else match Sink.start p.sink with
    | (.ok _, sink) => .ok { p with sink := sink, sinkStatus := .running }
    | (.error _, sink) => handlePause { p with sink := sink }

def handlePlayerStop : Process Uri D S (PlayerInternal Uri D S) :=
  match p.state with
  | .playing trackId playRequestId .. | .paused trackId playRequestId ..
  | .endOfTrack trackId playRequestId _ | .loading trackId playRequestId .. => do
    let p ← ensureSinkStopped p false
    let p := p.sendEvent (.stopped playRequestId trackId)
    return { p with state := .stopped }
  | .stopped => .ok p
  | .invalid => .error ⟨.handlePlayerStop, p⟩

def handlePlay (env : Env) : Process Uri D S (PlayerInternal Uri D S) :=
  match p.state with
  | .paused trackId playRequestId track _ => do
    let p ← pausedToPlaying p env
    let p := p.sendEvent (.playing playRequestId trackId track.streamPositionMs)
    ensureSinkRunning p
  | .loading trackId playRequestId _ loader =>
    .ok { p with state := .loading trackId playRequestId true loader }
  | _ => .ok p

/-- Volume and normalisation are applied to decoded samples before the sink sees them. -/
def applyVolume : AudioPacket → AudioPacket
  | .samples data => .samples (p.config.attenuate data)
  | .raw data => .raw data

def handlePacket (packet : Option (AudioPacketPosition × AudioPacket)) :
    Process Uri D S (PlayerInternal Uri D S) :=
  match packet with
  | some (_, packet) =>
    if packet.isEmpty then .ok p
    else match Sink.write p.sink (p.applyVolume packet) with
      | (.ok _, sink) => .ok { p with sink := sink }
      | (.error _, sink) => handlePause { p with sink := sink }
  | none => do
    let p ← playingToEndOfTrack p
    match p.state with
    | .endOfTrack trackId playRequestId _ =>
      return p.sendEvent (.endOfTrack playRequestId trackId)
    | _ => .error ⟨.handlePacket, p⟩

def startPlayback (p : PlayerInternal Uri D S) (env : Env) (trackId : Uri)
    (playRequestId : UInt64) (loadedTrack : PlayerLoadedTrackData Uri D) (startPlayback : Bool) :
    Process Uri D S (PlayerInternal Uri D S) := do
  let p := p.sendEvent (.trackChanged loadedTrack.audioItem)
  let positionMs := loadedTrack.streamPositionMs
  if startPlayback then
    let p ← ensureSinkRunning p
    let p := p.sendEvent (.playing playRequestId trackId positionMs)
    return { p with state := .playing trackId playRequestId loadedTrack
                        (checkedSub env.now positionMs) false }
  else
    let p ← ensureSinkStopped p false
    let p := { p with state := .paused trackId playRequestId loadedTrack false }
    return p.sendEvent (.paused playRequestId trackId positionMs)

end Sinks

/-- Move a loaded track to the requested position, unless it is there already. -/
def seekLoaded [Decoder D] (track : PlayerLoadedTrackData Uri D) (positionMs : UInt32) :
    Except DecoderError Unit × PlayerLoadedTrackData Uri D :=
  if positionMs = track.streamPositionMs then (.ok (), track)
  else match Decoder.seek track.decoder positionMs with
    | (.ok newPositionMs, decoder) =>
      (.ok (), { track with decoder := decoder, streamPositionMs := newPositionMs })
    | (.error e, decoder) => (.error e, { track with decoder := decoder })

section Commands
variable [DecidableEq Uri] [Decoder D] [Sink S] (env : Env)

variable (trackId : Uri) (playRequestId : UInt64)

/-- Restart a track that was moved out of the player state. -/
def restartTrack (loadedTrack : PlayerLoadedTrackData Uri D) (play : Bool) :
    Process Uri D S (PlayerInternal Uri D S × PlayerResult) := do
  let p := { p with state := .invalid, preload := .none }
  let p ← startPlayback p env trackId playRequestId loadedTrack play
  if p.state.isInvalid then return (p, .error .startPlaybackInvalid)
  else return (p, .ok ())

/-- The requested track is the one that just ended. The state is replaced by
`Invalid` before the seek, and the seek's `?` returns without putting it back. -/
def reloadEndOfTrack (loadedTrack : PlayerLoadedTrackData Uri D) (play : Bool)
    (positionMs : UInt32) : Process Uri D S (PlayerInternal Uri D S × PlayerResult) :=
  match seekLoaded loadedTrack positionMs with
  | (.error e, _) => .ok ({ p with state := .invalid }, .error (.aborted e))
  | (.ok _, loadedTrack) => restartTrack p env trackId playRequestId loadedTrack play

variable (track : PlayerLoadedTrackData Uri D)

/-- The requested track is the current one: `keep` puts the track back into
the state it came from when its decoder cannot seek. -/
def reuseCurrentTrack (keep : PlayerLoadedTrackData Uri D → PlayerState Uri D) (play : Bool)
    (positionMs : UInt32) : Process Uri D S (PlayerInternal Uri D S × PlayerResult) :=
  match seekLoaded track positionMs with
  | (.error e, track) => .ok ({ p with state := keep track }, .error (.aborted e))
  | (.ok _, track) => restartTrack p env trackId playRequestId track play

/-- The requested track has been preloaded. -/
def startPreloaded (loadedTrack : PlayerLoadedTrackData Uri D) (play : Bool) (positionMs : UInt32) :
    Process Uri D S (PlayerInternal Uri D S × PlayerResult) :=
  let p := { p with preload := .none }
  match seekLoaded loadedTrack positionMs with
  | (.error e, _) => .ok (p, .error (.aborted e))
  | (.ok _, loadedTrack) => do
    let p ← startPlayback p env trackId playRequestId loadedTrack play
    return (p, .ok ())

/-- The loader of a preload in progress is taken over at position zero. -/
def takeLoader (preload : PlayerPreload Uri D) (trackId : Uri) (positionMs : UInt32) : Loader Uri :=
  match preload with
  | .loading loadedTrackId loader =>
    if trackId = loadedTrackId ∧ positionMs = 0 then loader else ⟨trackId, positionMs, false⟩
  | _ => ⟨trackId, positionMs, false⟩

def startLoading (play : Bool) (positionMs : UInt32) : PlayerInternal Uri D S :=
  let p := p.sendEvent (.loading playRequestId trackId positionMs)
  let loader := takeLoader p.preload trackId positionMs
  { p with preload := .none, state := .loading trackId playRequestId play loader }

/-- Nothing in the player state can be reused. -/
def loadFromPreload (play : Bool) (positionMs : UInt32) :
    Process Uri D S (PlayerInternal Uri D S × PlayerResult) :=
  match p.preload with
  | .ready loadedTrackId loadedTrack =>
    if trackId = loadedTrackId then
      startPreloaded p env trackId playRequestId loadedTrack play positionMs
    else .ok (p.startLoading trackId playRequestId play positionMs, .ok ())
  | _ => .ok (p.startLoading trackId playRequestId play positionMs, .ok ())

/-- The part of `handle_command_load` after the request id has been announced. -/
def loadTrack (play : Bool) (positionMs : UInt32) :
    Process Uri D S (PlayerInternal Uri D S × PlayerResult) :=
  match p.state with
  | .invalid => .ok (p, .error .loadFromInvalidState)
  | .endOfTrack previousTrackId _ loadedTrack =>
    if previousTrackId = trackId then
      reloadEndOfTrack p env trackId playRequestId loadedTrack play positionMs
    else loadFromPreload p env trackId playRequestId play positionMs
  | .playing currentTrackId id track reported suggested =>
    if currentTrackId = trackId then
      reuseCurrentTrack p env trackId playRequestId track
        (fun track => .playing currentTrackId id track reported suggested) play positionMs
    else loadFromPreload p env trackId playRequestId play positionMs
  | .paused currentTrackId id track suggested =>
    if currentTrackId = trackId then
      reuseCurrentTrack p env trackId playRequestId track
        (fun track => .paused currentTrackId id track suggested) play positionMs
    else loadFromPreload p env trackId playRequestId play positionMs
  | .stopped => loadFromPreload p env trackId playRequestId play positionMs
  | .loading .. => loadFromPreload p env trackId playRequestId play positionMs

/-- The id a load announces. `unwrap_or` is eager, so the generator is drawn from
even when the caller brings its own id. -/
def requestId (playRequestIdOption : Option UInt64) : UInt64 :=
  playRequestIdOption.getD p.playRequestIdGenerator

def announce (playRequestIdOption : Option UInt64) : PlayerInternal Uri D S :=
  { p with playRequestIdGenerator := p.playRequestIdGenerator + 1 }.sendEvent
    (.playRequestIdChanged (p.requestId playRequestIdOption))

/-- Without gapless playback the sink is stopped before the next track is looked for. -/
def stopBeforeLoad (play : Bool) : Process Uri D S (PlayerInternal Uri D S) :=
  if p.config.gapless then .ok p else ensureSinkStopped p play

def handleCommandLoad (playRequestIdOption : Option UInt64) (play : Bool) (positionMs : UInt32) :
    Process Uri D S (PlayerInternal Uri D S × PlayerResult) := do
  let playRequestId := p.requestId playRequestIdOption
  let p ← stopBeforeLoad (p.announce playRequestIdOption) play
  loadTrack p env trackId playRequestId play positionMs

def handleCommandPreload : PlayerInternal Uri D S :=
  -- a preload of this track is kept, one of another track is cancelled
  let (preload, preloadTrack) : PlayerPreload Uri D × Bool :=
    match p.preload with
    | .loading currentlyLoading _ | .ready currentlyLoading _ =>
      if currentlyLoading = trackId then (p.preload, false) else (.none, true)
    | .none => (.none, true)
  let alreadyLoaded : Bool :=
    match p.state with
    | .playing currentTrackId .. | .paused currentTrackId .. | .endOfTrack currentTrackId .. =>
      currentTrackId = trackId
    | _ => false
  { p with
    preload := if preloadTrack && !alreadyLoaded then .loading trackId ⟨trackId, 0, false⟩
      else preload }

def preloadDataBeforePlayback : PlayerResult :=
  match p.state with
  | .playing _ _ track _ _ =>
    if track.streamLoaderController.shared && !env.fetchNextAndWait then .error .fetch else .ok ()
  | _ => .ok ()

/-- The decoder's answer to a seek; the position and the event only move on success. -/
def seekCurrent (keep : PlayerLoadedTrackData Uri D → PlayerState Uri D) (positionMs : UInt32) :
    PlayerInternal Uri D S :=
  match Decoder.seek track.decoder positionMs with
  | (.ok newPositionMs, decoder) =>
    { p with state := keep { track with decoder := decoder, streamPositionMs := newPositionMs } }
      |>.sendEvent (.seeked playRequestId trackId newPositionMs)
  | (.error _, decoder) => { p with state := keep { track with decoder := decoder } }

/-- What follows the seek itself, whether or not it succeeded. -/
def finishSeek (positionMs : UInt32) : PlayerInternal Uri D S × PlayerResult :=
  match p.preloadDataBeforePlayback env with
  | .error e => (p, .error e)
  | .ok _ =>
    match p.state with
    | .playing trackId playRequestId track _ suggested =>
      ({ p with state := .playing trackId playRequestId track
                  (checkedSub env.now positionMs) suggested }, .ok ())
    | _ => (p, .ok ())

def handleCommandSeek (positionMs : UInt32) :
    Process Uri D S (PlayerInternal Uri D S × PlayerResult) :=
  match p.state with
  | .loading trackId playRequestId startPlayback _ =>
    handleCommandLoad p env trackId (some playRequestId) startPlayback positionMs
  | .playing trackId playRequestId track reported suggested =>
    .ok ((p.seekCurrent trackId playRequestId track
      (fun track => .playing trackId playRequestId track reported suggested) positionMs).finishSeek
        env positionMs)
  | .paused trackId playRequestId track suggested =>
    .ok ((p.seekCurrent trackId playRequestId track
      (fun track => .paused trackId playRequestId track suggested) positionMs).finishSeek
        env positionMs)
  | .invalid => .error ⟨.decoder, p⟩
  | .stopped => .ok (p.finishSeek env positionMs)
  | .endOfTrack .. => .ok (p.finishSeek env positionMs)

/-- An explicit track is skipped when the filter is switched on; the event is
sent and the player goes on playing until the next command. -/
def filterExplicit (filter : Bool) : PlayerInternal Uri D S :=
  let p := p.sendEvent (.filterExplicitContentChanged filter)
  match p.state with
  | .playing trackId playRequestId track _ _ | .paused trackId playRequestId track _ =>
    if filter && track.isExplicit then p.sendEvent (.endOfTrack playRequestId trackId) else p
  | _ => p

def handleCommand (cmd : PlayerCommand Uri) :
    Process Uri D S (PlayerInternal Uri D S × PlayerResult) :=
  match cmd with
  | .load trackId play positionMs => handleCommandLoad p env trackId none play positionMs
  | .preload trackId => .ok (p.handleCommandPreload trackId, .ok ())
  | .seek positionMs => handleCommandSeek p env positionMs
  | .play => do return (← handlePlay p env, .ok ())
  | .pause => do return (← handlePause p, .ok ())
  | .stop => do return (← handlePlayerStop p, .ok ())
  -- the session, the senders and the callback are outside the model
  | .setSession | .addEventSender | .setSinkEventCallback => .ok (p, .ok ())
  | .emitVolumeChangedEvent volume => .ok (p.sendEvent (.volumeChanged volume), .ok ())
  | .emitRepeatChangedEvent context track =>
    .ok (p.sendEvent (.repeatChanged context track), .ok ())
  | .emitShuffleChangedEvent shuffle => .ok (p.sendEvent (.shuffleChanged shuffle), .ok ())
  | .emitAutoPlayChangedEvent autoPlay => .ok (p.sendEvent (.autoPlayChanged autoPlay), .ok ())
  | .emitSessionClientChangedEvent clientId clientName clientBrandName clientModelName =>
    .ok (p.sendEvent
      (.sessionClientChanged clientId clientName clientBrandName clientModelName), .ok ())
  | .emitSessionConnectedEvent connectionId userName =>
    .ok (p.sendEvent (.sessionConnected connectionId userName), .ok ())
  | .emitSessionDisconnectedEvent connectionId userName =>
    .ok (p.sendEvent (.sessionDisconnected connectionId userName), .ok ())
  | .setAutoNormaliseAsAlbum setting => .ok ({ p with autoNormaliseAsAlbum := setting }, .ok ())
  | .emitSetQueueEvent contextUri currentTrack nextTracks prevTracks =>
    .ok (p.sendEvent (.setQueue contextUri currentTrack nextTracks prevTracks), .ok ())
  | .emitFilterExplicitContentChangedEvent filter => .ok (p.filterExplicit filter, .ok ())

/-- A track that is being loaded starts when its loader is ready. A loader that
already failed is terminated and not polled again. -/
def pollLoader (poll : LoaderPoll Uri D) : Process Uri D S (PlayerInternal Uri D S) :=
  match p.state with
  | .loading trackId playRequestId start loader =>
    if loader.terminated then .ok p
    else match poll with
      | .ready loadedTrack => do
        let p ← startPlayback p env trackId playRequestId loadedTrack start
        match p.state with
        | .loading .. => .error ⟨.startPlaybackUnchanged, p⟩
        | _ => return p
      | .failed =>
        let loader := { loader with terminated := true }
        .ok ({ p with state := .loading trackId playRequestId start loader }.sendEvent
          (.unavailable playRequestId trackId))
      | .pending => .ok p
  | _ => .ok p

def pollPreload (poll : LoaderPoll Uri D) : PlayerInternal Uri D S :=
  match p.preload with
  | .loading trackId _ =>
    match poll with
    | .ready loadedTrack =>
      { p.sendEvent (.preloading trackId) with preload := .ready trackId loadedTrack }
    | .failed =>
      let p := { p with preload := .none }
      match p.state with
      | .playing _ playRequestId .. | .paused _ playRequestId .. =>
        p.sendEvent (.unavailable playRequestId trackId)
      | _ => p
    | .pending => p
  | _ => p

/-- Whether the reported position has to be corrected: the position is unknown,
packets were skipped, or playback lags behind by a second or more. -/
def notifyAboutPosition (now expectedMs : Nat) (position : AudioPacketPosition) :
    Option Nat → Bool
  | none => true
  | some reportedNominalStartTime =>
    let newMs := position.positionMs.toNat
    let lag := now - reportedNominalStartTime
    (position.skipped && decide (expectedMs + 1000 ≤ newMs)) ||
      (decide (reportedNominalStartTime ≤ now) && decide (newMs + 1000 ≤ lag))

/-- The bookkeeping of decoded samples, skipped in passthrough mode. -/
def reportPosition (reported : Option Nat) (suggested : Bool) (expectedMs : UInt32)
    (position : AudioPacketPosition) : PlayerInternal Uri D S :=
  let p := if notifyAboutPosition env.now expectedMs.toNat position reported then
      { p with state := .playing trackId playRequestId track
                  (checkedSub env.now position.positionMs) suggested }
        |>.sendEvent (.positionCorrection playRequestId trackId position.positionMs)
    else p
  match p.config.positionUpdateInterval with
  | some interval =>
    if env.now - p.lastProgressUpdate > interval then
      { p with lastProgressUpdate := env.now }.sendEvent
        (.positionChanged playRequestId trackId position.positionMs)
    else p
  | none => p

/-- A packet of the decoder, before it is handed to the sink. -/
def notePacket (reported : Option Nat) (suggested : Bool) (position : AudioPacketPosition)
    (packet : AudioPacket) : PlayerInternal Uri D S :=
  let expectedMs := track.streamPositionMs
  let track := { track with streamPositionMs := position.positionMs }
  let p := { p with state := .playing trackId playRequestId track reported suggested }
  if p.config.passthrough then p
  else if packet.hasSamples then
    reportPosition p env trackId playRequestId track reported suggested expectedMs position
  else p.sendEvent (.endOfTrack playRequestId trackId)

/-- The decoder is asked for its next packet. Its error is answered by the
event alone: the state stays `Playing`. -/
def decodeNext (reported : Option Nat) (suggested : Bool) :
    Process Uri D S (PlayerInternal Uri D S) :=
  let (result, decoder) := Decoder.nextPacket track.decoder
  let track := { track with decoder := decoder }
  let p := { p with state := .playing trackId playRequestId track reported suggested }
  match result with
  | .ok none => handlePacket p none
  | .ok (some (position, packet)) =>
    handlePacket
      (notePacket p env trackId playRequestId track reported suggested position packet)
      (some (position, packet))
  | .error _ => .ok (p.sendEvent (.endOfTrack playRequestId trackId))

/-- The packet phase of the loop. -/
def playPacket : Process Uri D S (PlayerInternal Uri D S) := do
  let isPlaying ← p.checkPlaying
  if isPlaying then
    let p ← ensureSinkRunning p
    match p.state with
    | .playing trackId playRequestId track reported suggested =>
      decodeNext p env trackId playRequestId track reported suggested
    | _ => .error ⟨.pollNotPlaying, p⟩
  else return p

def preloadNextTrackBeforeEndDurationMs : Int := 30000

/-- Whether it is time to suggest the preload of the next track. -/
def nearEnd : Bool :=
  decide ((track.durationMs.toNat : Int) - track.streamPositionMs.toNat
      < preloadNextTrackBeforeEndDurationMs) &&
    (!track.streamLoaderController.shared || env.rangeToEndAvailable)

def suggestPreload : PlayerInternal Uri D S :=
  match p.state with
  | .playing trackId playRequestId track reported suggested =>
    if !suggested && nearEnd env track then
      { p with state := .playing trackId playRequestId track reported true }.sendEvent
        (.timeToPreloadNextTrack playRequestId trackId)
    else p
  | .paused trackId playRequestId track suggested =>
    if !suggested && nearEnd env track then
      { p with state := .paused trackId playRequestId track true }.sendEvent
        (.timeToPreloadNextTrack playRequestId trackId)
    else p
  | _ => p

end Commands

end PlayerInternal

/-- A command, or one of the phases of the poll loop that follow it. -/
inductive Phase (Uri D : Type) where
  | command (cmd : PlayerCommand Uri)
  | loader (poll : LoaderPoll Uri D)
  | preload (poll : LoaderPoll Uri D)
  | packet
  | suggest
  /-- The check of `is_playing` at the end of a turn. -/
  | yield

structure Input (Uri D : Type) where
  env : Env
  phase : Phase Uri D

section Loop
variable [DecidableEq Uri] [Decoder D] [Sink S]

/-- The error of a command is logged by the loop and otherwise dropped. -/
def phaseStep (p : PlayerInternal Uri D S) (input : Input Uri D) :
    Process Uri D S (PlayerInternal Uri D S) :=
  match input.phase with
  | .command cmd => do return (← p.handleCommand input.env cmd).1
  | .loader poll => p.pollLoader input.env poll
  | .preload poll => .ok (p.pollPreload poll)
  | .packet => p.playPacket input.env
  | .suggest => .ok (p.suggestPreload input.env)
  | .yield => do
    let _ ← p.checkPlaying
    return p

/-- A process that has ended takes no further step. -/
def step (o : Process Uri D S (PlayerInternal Uri D S)) (input : Input Uri D) :
    Process Uri D S (PlayerInternal Uri D S) :=
  o >>= fun p => phaseStep p input

end Loop

/-- The player as `Player::new` builds it. -/
def initial (config : PlayerConfig) (sink : S) (now : Nat) : PlayerInternal Uri D S where
  config := config
  state := .stopped
  preload := .none
  sink := sink
  sinkStatus := .closed
  autoNormaliseAsAlbum := false
  playRequestIdGenerator := 0
  lastProgressUpdate := now
  events := []

end PlayerThread
