import SqueezeboxConnect.ConnectContext

/-!
# Commands on the Connect state

Shuffle, repeat, the queue another device sends, unavailable tracks and the end
of a transfer. `smallRng` stands for the generator with a seed; a seed that is
drawn is an input, and so are random uids.
-/

namespace Connect

structure SetQueueCommand where
  nextTracks : List ProvidedTrack
  prevTracks : List ProvidedTrack
  deriving DecidableEq, Repr

/-- What the end of a transfer reads of the other device's state. -/
structure TransferState where
  isPlayingQueue : Bool
  queueTracks : List ContextTrack
  playbackTrack : Option ContextTrack
  sessionContextUri : Option String
  currentUid : Option String
  deriving DecidableEq, Repr

namespace ConnectState

variable (s : ConnectState)

def setRepeatContext (enabled : Bool) : ConnectState :=
  s.setPlayer fun p => { p with options := { p.options with repeatingContext := enabled } }

def setShuffle (enabled : Bool) : ConnectState :=
  s.setPlayer fun p => { p with options := { p.options with shufflingContext := enabled } }

def shufflingContext : Bool := s.player.options.shufflingContext

def clearPrevTrack : ConnectState :=
  s.setPlayer fun p => { p with prevTracks := [] }

def validateShuffleAllowed : Except StateError Unit :=
  match (s.player.restrictions.getD .new).disallowTogglingShuffleReasons with
  | [] => .ok ()
  | reason :: _ => .error (.currentlyDisallowed "shuffle" reason)

variable (smallRng : Nat → Rng)

/-- The default context is shuffled behind the initial track. -/
def shuffle (seed : Nat) (initialTrack : String) : Reply Unit :=
  let s := s.clearPrevTrack.clearNextTracks.resetContext .defaultIndex
  match s.context with
  | none => (s, .error (.noContext .default))
  | some ctx =>
    let metadata := ctx.metadata.insert "initial_track" initialTrack
    { s with context := some { ctx with
        tracks := ctx.tracks.shuffleWithRng (smallRng seed) fun t => t.uri == initialTrack
        metadata := metadata.insert "shuffle_seed" (toString seed) } }.fillUpNextTracks

def shuffleRestore (shuffleState : ShuffleState) : Reply Unit :=
  match s.validateShuffleAllowed with
  | .error e => (s, .error e)
  | .ok () => s.shuffle smallRng shuffleState.seed shuffleState.initialTrack

def shuffleNew (newSeed : Nat) : Reply Unit :=
  match s.validateShuffleAllowed with
  | .error e => (s, .error e)
  | .ok () => s.shuffle smallRng newSeed s.currentTrack.uri

/-- Without shuffle, playback goes on behind the place of the current track. -/
def handleShuffle (enabled : Bool) (newSeed : Nat) : Reply Unit :=
  let s := s.setShuffle enabled
  if enabled then s.shuffleNew smallRng newSeed
  else
    let s := s.resetContext .defaultIndex
    if s.player.track.isNone then (s, .ok ())
    else
      match s.currentTrack.getContextIndex with
      | some currentIndex => s.resetPlaybackToPosition (some currentIndex)
      | none =>
        match s.getContext .default with
        | .error e => (s, .error e)
        | .ok ctx =>
          match findIndexInContext ctx fun c => c.uri == s.currentTrack.uri with
          | .error e => (s, .error e)
          | .ok currentIndex => s.resetPlaybackToPosition (some currentIndex)

def handleSetRepeatContext (enabled : Bool) : Reply Unit :=
  let s := s.setRepeatContext enabled
  let s := if enabled ∧ s.fillUpContext = .autoplay then { s with fillUpContext := .default } else s
  match s.getContext .default with
  | .error e => (s, .error e)
  | .ok ctx =>
    match findIndexInContext ctx fun t => s.currentTrack.uri == t.uri with
    | .error e => (s, .error e)
    | .ok currentTrack => s.resetPlaybackToPosition (some currentTrack)

/-- Tracks that are marked as queued get the provider and a uid of the queue. -/
def claimQueued : List ProvidedTrack → Nat → List ProvidedTrack × Nat
  | [], queueCount => ([], queueCount)
  | t :: rest, queueCount =>
    if t.isFromQueue then
      let (claimed, count) := claimQueued rest (queueCount + 1)
      ({ t with provider := .queue, uid := "q" ++ toString queueCount } :: claimed, count)
    else
      let (claimed, count) := claimQueued rest queueCount
      (t :: claimed, count)

def setNextTracks (tracks : List ProvidedTrack) : ConnectState :=
  let (tracks, queueCount) := claimQueued tracks s.queueCount
  -- a track without a uri is the current one, moved in the queue view
  let tracks := tracks.map fun t => if t.uri = "" then { t with uri := s.currentTrack.uri } else t
  { s with queueCount, player := { s.player with nextTracks := tracks } }

def setPrevTracks (tracks : List ProvidedTrack) : ConnectState :=
  s.setPlayer fun p => { p with prevTracks := tracks }

def handleSetQueue (setQueue : SetQueueCommand) : ConnectState :=
  (s.setNextTracks setQueue.nextTracks).setPrevTracks setQueue.prevTracks

def markAsUnavailableForMatch (uri : String) (track : ProvidedTrack) : ProvidedTrack :=
  if track.uri = uri then { track with provider := .unavailable } else track

/-- The visible tracks with the uri are removed; what is left is looked through once more. -/
def removeUri (uri : String) (tracks : List ProvidedTrack) : List ProvidedTrack :=
  (tracks.filter fun t => t.uri != uri).map (markAsUnavailableForMatch uri)

def markUnavailable (id : SpotifyUri) : Reply Unit :=
  let uri := String.ofList id.toUri
  { s with
    player := { s.player with
      nextTracks := removeUri uri s.player.nextTracks
      prevTracks := removeUri uri s.player.prevTracks }
    unavailableUri := s.unavailableUri ++ [uri] }.fillUpNextTracks

def currentTrackFromTransfer (transfer : TransferState) (uuid : String) :
    Except StateError ProvidedTrack :=
  let track := if transfer.isPlayingQueue then transfer.queueTracks.head?
    else transfer.playbackTrack
  match track with
  | none => .error .couldNotResolveTrackFromTransfer
  | some track => s.contextToProvidedTrack track transfer.sessionContextUri none none
      (if transfer.isPlayingQueue then some .queue else none) uuid

/-- The place of the transferred track in the context; in front of the place the
session names while a queued track plays. -/
def transferIndex (ctx : StateContext) (transfer : TransferState) (track : ProvidedTrack) :
    Option Nat :=
  match transfer.currentUid, track.isQueue with
  | some uid, true => (ctx.tracks.vec.findIdx? fun c => c.uid == uid).map fun i => i - 1
  | _, _ => ctx.tracks.vec.findIdx? fun c => c.uri == track.uri || c.uid == track.uid

/-- The transferred queue without the track that is already playing. -/
def enqueueTransferred (transfer : TransferState) (uuid : Nat → String) : ConnectState :=
  let tracks := if transfer.isPlayingQueue then transfer.queueTracks.zipIdx.drop 1
    else transfer.queueTracks.zipIdx
  tracks.foldl (fun s (track, i) =>
    match s.contextToProvidedTrack track (some s.contextUri) none none (some .queue) (uuid i) with
    | .ok queuedTrack => s.addToQueue queuedTrack
    | .error _ => s) s

/-- What is left to do once the context of the transferred track is known. -/
def finishTransferIn (ctx : StateContext) (transfer : TransferState) (track : ProvidedTrack)
    (newSeed : Nat) (uuid : Nat → String) : Reply Unit :=
  let currentIndex := transferIndex ctx transfer track
  let s := if s.player.track.isNone then s.setTrack track else s
  let s := currentIndex.elim s fun i => s.updateCurrentIndex fun _ => i
  let s := s.enqueueTransferred transfer uuid
  let finished := if s.shufflingContext then
      (s.setCurrentTrack (currentIndex.getD 0)).andThen fun s _ =>
        let s := s.setShuffle true
        match s.transferShuffle with
        | none => s.shuffleNew smallRng newSeed
        | some state => { s with transferShuffle := none }.shuffleRestore smallRng state
    else s.resetPlaybackToPosition currentIndex
  finished.andThen fun s _ => (s.updateRestrictions, .ok ())

def finishTransfer (transfer : TransferState) (newSeed : Nat) (uuid : Nat → String) : Reply Unit :=
  let track : Except StateError ProvidedTrack := match s.player.track with
    | some track => .ok track
    | none => s.currentTrackFromTransfer transfer (uuid 0)
  match track with
  | .error e => (s, .error e)
  | .ok track =>
    let isFromAutoplay := s.currentTrack.metadata.getBool "autoplay.is_autoplay"
    let contextTy : ContextType := if isFromAutoplay then .autoplay else .default
    let s := { s.setActiveContext contextTy with fillUpContext := contextTy }
    match s.getContext s.activeContext with
    | .error e => (s, .error e)
    | .ok ctx => s.finishTransferIn smallRng ctx transfer track newSeed fun i => uuid (i + 1)

end ConnectState

end Connect
