import SqueezeboxConnect.AutoplayLoading
import SqueezeboxConnect.ContextFinishing
import SqueezeboxConnect.FailedCommands
import SqueezeboxConnect.Outcomes

/-!
# Taking over from another device

A transfer resets the context, takes over the current track, activates the device
and only then computes where to go on in the track: from the position the other
device reports and the difference of the two clocks. The events a device emits
when it becomes active count as one call of the player. The playback speed, the
play origin and the suppressions of a message are only passed on and left out.
-/

namespace Connect

structure Playback where
  timestamp : Option Int64
  positionAsOfTimestamp : Option Int32
  isPaused : Option Bool
  deriving DecidableEq, Repr

structure TransferOptions where
  shufflingContext : Option Bool
  repeatingContext : Option Bool
  repeatingTrack : Option Bool
  deriving DecidableEq, Repr

/-- The whole message of a transfer; `context` is that of the current session. -/
structure TransferMessage where
  options : Option TransferOptions
  playback : Playback
  currentTrack : Option ContextTrack
  context : Option Context
  currentUid : Option String
  isPlayingQueue : Bool
  queueTracks : List ContextTrack
  deriving DecidableEq, Repr

inductive SpircPlayStatus where
  | stopped
  | loadingPlay (positionMs : UInt32)
  | loadingPause (positionMs : UInt32)
  | playing (nominalStartTime : Int64) (preloadingOfNextTrackTriggered : Bool)
  | paused (positionMs : UInt32) (preloadingOfNextTrackTriggered : Bool)
  deriving DecidableEq, Repr

inductive PlayerCall where
  | activated
  | load (trackId : SpotifyUri) (startPlaying : Bool) (positionMs : UInt32)
  | stop
  deriving DecidableEq, Repr

/-- The errors of a transfer; that of the position is the failed conversion to `u32`. -/
inductive SpircError where
  | noUri (what : String)
  | state (why : StateError)
  | uri (why : SpotifyUriError)
  | position
  deriving DecidableEq, Repr

/-- The task with what it reports of itself and what it asked of the player. -/
structure ConnectTask extends SpircTask where
  isActive : Bool
  positionAsOfTimestamp : Int64
  timestamp : Int64
  playStatus : SpircPlayStatus
  calls : List PlayerCall

namespace TransferMessage

/-- What is kept for the end of the transfer. -/
def state (m : TransferMessage) (sessionContextUri : Option String) : TransferState where
  isPlayingQueue := m.isPlayingQueue
  queueTracks := m.queueTracks
  playbackTrack := m.currentTrack
  sessionContextUri := sessionContextUri
  currentUid := m.currentUid

def contextUri (m : TransferMessage) : Option String := m.context.bind Context.uri

def allTracks (m : TransferMessage) : List ContextTrack :=
  m.context.elim [] fun context => context.pages.flatMap ContextPage.tracks

end TransferMessage

namespace Playback

def paused (p : Playback) : Bool := p.isPaused.getD false

/-- Where to go on; the arithmetic is that of `i64`, which wraps around. -/
def position (p : Playback) (now : Int64) : Int64 :=
  match p.positionAsOfTimestamp with
  | none => 0
  | some position =>
    if p.paused then position.toInt64
    else if 0 < position then position.toInt64 + (now - p.timestamp.getD 0)
    else 0

end Playback

/-- `u32::try_from`. -/
def u32OfI64 (n : Int64) : Option UInt32 :=
  if 0 ≤ n.toInt ∧ n.toInt < 4294967296 then some (UInt32.ofNat n.toInt.toNat) else none

namespace ConnectState

def setStatus (s : ConnectState) (status : SpircPlayStatus) : ConnectState :=
  let isPaused := match status with
    | .loadingPause _ | .paused _ _ | .stopped => true
    | .loadingPlay _ | .playing _ _ => false
  let isLoading := match status with
    | .loadingPause _ | .loadingPlay _ => true
    | .stopped | .playing _ _ | .paused _ _ => false
  let isPlaying := match status with
    | .loadingPlay _ | .playing _ _ => true
    | .stopped | .loadingPause _ | .paused _ _ => false
  (s.setPlayer fun p => { p with
    isPaused
    isBuffering := isPaused || isLoading
    isPlaying := isPaused || isPlaying }).updateRestrictions

/-- The shuffle of the other device, where its session names one. -/
def sessionShuffle (context : Option Context) : Option ShuffleState :=
  context.bind fun context =>
    ((context.metadata.get "shuffle_seed").bind fun seed =>
      SpotifyUri.parseU64 seed.toList).bind fun seed =>
      (context.metadata.get "initial_track").map fun initialTrack => ⟨seed, initialTrack⟩

def handleInitialTransfer (s : ConnectState) (m : TransferMessage) (ctxUri : Option String) :
    ConnectState :=
  let currentContextMetadata := (s.context.map StateContext.metadata).getD []
  let uri := ctxUri.getD "spotify:unknown"
  let s := s.setPlayer fun p => { p with
    isBuffering := false
    options := m.options.elim p.options fun options => ⟨options.shufflingContext.getD false,
      options.repeatingContext.getD false, options.repeatingTrack.getD false⟩
    isPaused := m.playback.paused
    isPlaying := !m.playback.paused
    restrictions := m.context.elim p.restrictions Context.restrictions
    contextMetadata := ((m.context.elim p.contextMetadata fun context =>
      p.contextMetadata.insertAll context.metadata).insertAll currentContextMetadata)
    contextUrl := "context://" ++ uri
    contextUri := uri }
  { s with transferShuffle := sessionShuffle m.context }.clearPrevTrack.clearNextTracks

/-- The context of tracks that come without one. -/
def loadContextFromTracks (s : ConnectState) (tracks : List ContextTrack)
    (uuid : Nat → Nat → String) : Reply Unit :=
  let (s, loaded) := s.updateContext ⟨some "spotify:web-api", some "context://spotify:web-api", [],
    none, [⟨none, tracks, []⟩]⟩ .default uuid
  (s, loaded.map fun _ => ())

end ConnectState

namespace ConnectTask

/-- The `?` operator. -/
def andThen {A B : Type} (r : ConnectTask × Except SpircError A)
    (f : ConnectTask → A → ConnectTask × Except SpircError B) : ConnectTask × Except SpircError B :=
  match r with
  | (t, .ok a) => f t a
  | (t, .error why) => (t, .error why)

variable (t : ConnectTask)

def setState (connectState : ConnectState) : ConnectTask :=
  { t with connectState }

def addResolving (resolve : ResolveContext) (now : Nat) : ConnectTask :=
  { t with contextResolver := t.contextResolver.add resolve now }

def call (request : PlayerCall) : ConnectTask :=
  { t with calls := t.calls ++ [request] }

def handleActivate : ConnectTask := { t.call .activated with isActive := true }

def updatePosition (positionMs : UInt32) (now : Int64) : ConnectTask :=
  { t with positionAsOfTimestamp := Int64.ofNat positionMs.toNat, timestamp := now }

def handleStop (now : Int64) : ConnectTask :=
  let t := (t.call .stop).updatePosition 0 now
  t.setState (t.connectState.clearNextTracks.resetPlaybackToPosition none).1

def loadTrack (startPlaying : Bool) (positionMs : UInt32) (now : Int64) :
    ConnectTask × Except SpircError Unit :=
  match t.connectState.player.track with
  | none => (t.handleStop now, .ok ())
  | some track =>
    match SpotifyUri.fromUri track.uri.toList with
    | .error why => (t, .error (.uri why))
    | .ok id =>
      let t := (t.call (.load id startPlaying positionMs)).updatePosition positionMs now
      let playStatus : SpircPlayStatus :=
        if startPlaying then .loadingPlay positionMs else .loadingPause positionMs
      ({ t with playStatus }.setState (t.connectState.setStatus playStatus), .ok ())

variable (m : TransferMessage)

/-- Where the context comes from: its uri, the tracks of the message or the track itself. -/
def provideContext (ctxUri : Option String) (around : Surroundings) :
    ConnectTask × Except SpircError (Option String) :=
  let fallback := t.connectState.currentTrack.uri
  match ctxUri with
  | some uri =>
    (t.addResolving (.fromUri uri fallback .default .replace) around.now, .ok (some uri))
  | none =>
    if m.allTracks.isEmpty then (t, .ok (some fallback))
    else
      let (s, loaded) := t.connectState.loadContextFromTracks m.allTracks around.uuid
      (t.setState s, (loaded.map fun _ => none).mapError .state)

/-- The rest of the transfer waits for the context, or the track is looked up in it. -/
def placeTransferred (loadFromContextUri : Bool) : ConnectTask × Except SpircError Unit :=
  -- the context of the session has been taken out of the message by now
  let waiting := { t with transferState := some (m.state none) }
  if loadFromContextUri then (waiting, .ok ())
  else
    match t.connectState.getContext .default with
    | .error _ => (waiting, .ok ())
    | .ok ctx =>
      match findIndexInContext ctx fun pt => pt.uri == t.connectState.currentTrack.uri with
      | .error why => (t, .error (.state why))
      | .ok idx =>
        let (s, reset) := t.connectState.resetPlaybackToPosition (some idx)
        (t.setState s, reset.mapError .state)

/-- `position.try_into()?` stands in the argument of the last call. -/
def loadAt (now : Int64) : ConnectTask × Except SpircError Unit :=
  match u32OfI64 (m.playback.position now) with
  | none => (t, .error .position)
  | some positionMs => t.loadTrack (!m.playback.paused) positionMs now

/-- The part of a transfer behind the activation of the device. -/
def takeOver (ctxUri : Option String) (autoplay : Bool) (loadFromContextUri : Bool) (now : Int64)
    (around : Surroundings) : ConnectTask × Except SpircError Unit :=
  let fallback := t.connectState.currentTrack.uri
  let s := t.connectState.handleInitialTransfer m ctxUri
  let t := t.setState { s with activeContext := if autoplay then .autoplay else .default }
  let t := if t.connectState.currentTrack.isAutoplay || autoplay then
      ctxUri.elim t fun uri =>
        t.addResolving (.fromUri uri fallback .autoplay .replace) around.now
    else t
  andThen (t.placeTransferred m loadFromContextUri) fun t _ => t.loadAt m now

/-- The context is reset and the transferred track becomes the current one, if there is one. -/
def receiveTrack (ctxUri : Option String) (around : Surroundings) : ConnectTask :=
  let s := t.connectState.resetContext (ctxUri.elim .completely .whenDifferent)
  match s.currentTrackFromTransfer (m.state m.contextUri) (around.transferUuid 0) with
  | .error _ => t.setState s
  | .ok track => t.setState (s.setTrack track)

def withoutStation (uri : String) : String :=
  String.ofList (replaceFrom "station:".toList [] 0 uri.toList)

/-- A session that was started with tracks names its context with a dash or not at all. -/
def namedContext (uri : String) : Option String := if uri = "-" ∨ uri = "" then none else some uri

def handleTransfer (now : Int64) (around : Surroundings) : ConnectTask × Except SpircError Unit :=
  match m.contextUri with
  | none => (t, .error (.noUri "transfer context"))
  | some uri =>
    let t := t.receiveTrack m (namedContext uri) around
    let autoplay := t.connectState.currentTrack.isAutoplay
    let ctxUri := if autoplay then (namedContext uri).map withoutStation else namedContext uri
    andThen (t.provideContext m ctxUri around) fun t provided =>
      t.handleActivate.takeOver m provided autoplay ctxUri.isSome now around

end ConnectTask

end Connect

namespace Transfers

open Connect ConnectState ConnectTask

/-- The track is loaded, or the transfer fails and has not changed anything. -/
def Survives (t : ConnectTask) (id : SpotifyUri)
    (result : ConnectTask × Except SpircError Unit) : Prop :=
  (result.2 = .ok () ∧ ∃ startPlaying positionMs,
      result.1.calls = t.calls ++ [.activated, .load id startPlaying positionMs]) ∨
    ((∃ why, result.2 = .error why) ∧ result.1.isActive = t.isActive ∧ result.1.calls = t.calls ∧
      result.1.connectState = t.connectState ∧
      result.1.positionAsOfTimestamp = t.positionAsOfTimestamp ∧ result.1.timestamp = t.timestamp)

/-- The position can be passed on to the player. -/
def Fits (position : Int64) : Prop := 0 ≤ position.toInt ∧ position.toInt < 4294967296

/-- Where the tracks of the message are the context, the current one is among them. -/
def Placed (m : TransferMessage) (uri : String) (track : ProvidedTrack) : Prop :=
  uri = "-" ∨ uri = "" → m.allTracks = [] ∨
    track.uri ∈ AutoplayLoading.pageUris ⟨none, m.allTracks, []⟩

/-! ## The state that is received -/

section Received

variable {s : ConnectState}

theorem resetContext_unavailable (resetAs : ResetContext) :
    (s.resetContext resetAs).unavailableUri = s.unavailableUri := by
  cases resetAs with
  | completely => rfl
  | defaultIndex =>
    simp only [resetContext, setActiveContext]
    split <;> rfl
  | whenDifferent uri =>
    simp only [resetContext, setActiveContext]
    split <;> split <;> rfl

theorem currentTrackFromTransfer_congr {s' : ConnectState}
    (same : s'.unavailableUri = s.unavailableUri) (transfer : TransferState) (uuid : String) :
    s'.currentTrackFromTransfer transfer uuid = s.currentTrackFromTransfer transfer uuid := by
  simp only [currentTrackFromTransfer, contextToProvidedTrack, same]

/-- A transferred track is never one of autoplay. -/
theorem transferred_isAutoplay {transfer : TransferState} {uuid : String} {track : ProvidedTrack}
    (found : s.currentTrackFromTransfer transfer uuid = .ok track) : track.isAutoplay = false := by
  simp only [currentTrackFromTransfer] at found
  split at found
  · cases found
  · obtain ⟨id, _, rfl⟩ := Outcomes.map_eq_ok_iff.mp found
    simp only [ProvidedTrack.isAutoplay]
    split
    · rfl
    · cases transfer.isPlayingQueue <;> rfl

end Received

/-! ## Resetting to the transferred track -/

section Reset

variable {s : ConnectState} {ctx : StateContext} {k : Nat}

/-- A reset to a track of the context succeeds; the track becomes the current one, unless
the current one is kept. -/
theorem reset_inside (loaded : s.getContext s.activeContext = .ok ctx)
    (inside : k < ctx.tracks.vec.length) :
    (s.resetPlaybackToPosition (some k)).2 = .ok () ∧
      ((s.resetPlaybackToPosition (some k)).1.player.track = s.player.track ∨
        (s.resetPlaybackToPosition (some k)).1.player.track = some ctx.tracks.vec[k]) := by
  refine ⟨?_, ?_⟩
  · rcases FailedCommands.reset_outcome s k with ⟨_, done⟩ | ⟨fails, _⟩
    · exact done
    · simp only [FailedCommands.ResetFails, loaded] at fails
      omega
  · have refills : ∀ f : ConnectState, (f.fillUpNextTracks.andThen fun s _ =>
        (s.updateRestrictions, Except.ok ())).1.player.track = f.player.track := by
      intro f
      obtain ⟨_, _, _, _, filled, _⟩ := ConnectDeck.fillUp_spec f
      refine @ConnectDeck.andThen_state _ _ (fun s' => s'.player.track = f.player.track) _ _ ?_ ?_
      · rw [filled]
        rfl
      · intro _
        rw [filled]
        rfl
    rw [ContextRuns.reset_loaded loaded, List.getElem?_eq_getElem inside]
    cases ContextRuns.stays s with
    | true => exact Or.inl (refills _)
    | false => exact Or.inr (refills _)

end Reset

/-! ## The outcome -/

section Outcome

variable {t t' : ConnectTask} {id : SpotifyUri}

theorem u32OfI64_fits {position : Int64} (fits : Fits position) :
    ∃ positionMs, u32OfI64 position = some positionMs := ⟨_, if_pos fits⟩

theorem u32OfI64_none {position : Int64} (fails : ¬ Fits position) : u32OfI64 position = none :=
  if_neg fails

/-- What fails after the player was called has been noticed. -/
theorem not_survives_of_calls {result : ConnectTask × Except SpircError Unit}
    (fails : result.2 ≠ .ok ()) (calls : result.1.calls ≠ t.calls) : ¬ Survives t id result := by
  rintro (⟨done, _⟩ | ⟨_, _, same, _⟩)
  · exact fails done
  · exact calls same

theorem not_survives_of_activated {why : SpircError} (calls : t'.calls = t.calls ++ [.activated]) :
    ¬ Survives t id (t', .error why) := by
  apply not_survives_of_calls
  · intro done
    cases done
  · intro same
    rw [calls] at same
    simp at same

theorem loadAt_survives_iff {track : ProvidedTrack} (m : TransferMessage) (now : Int64)
    (calls : t'.calls = t.calls ++ [.activated])
    (current : t'.connectState.player.track = some track)
    (playable : SpotifyUri.fromUri track.uri.toList = .ok id) :
    Survives t id (t'.loadAt m now) ↔ Fits (m.playback.position now) := by
  by_cases fits : Fits (m.playback.position now)
  · obtain ⟨positionMs, converted⟩ := u32OfI64_fits fits
    refine iff_of_true (Or.inl ?_) fits
    simp only [loadAt, converted, loadTrack, current, playable]
    refine ⟨trivial, !m.playback.paused, positionMs, ?_⟩
    change t'.calls ++ [_] = _
    rw [calls, List.append_assoc]
    rfl
  · refine iff_of_false ?_ fits
    simp only [loadAt, u32OfI64_none fits]
    exact not_survives_of_activated calls

/-- The task once the first part of the message has been taken over. -/
def takenOver (t : ConnectTask) (m : TransferMessage) (ctxUri : Option String) : ConnectTask :=
  t.setState { t.connectState.handleInitialTransfer m ctxUri with activeContext := .default }

section TakeOver

variable {track : ProvidedTrack} {m : TransferMessage} {ctxUri : Option String} {now : Int64}
  {around : Surroundings} {loadFromContextUri : Bool}

theorem takeOver_eq (current : t'.connectState.player.track = some track)
    (context : track.isAutoplay = false) :
    t'.takeOver m ctxUri false loadFromContextUri now around =
      andThen ((takenOver t' m ctxUri).placeTransferred m loadFromContextUri)
        fun t _ => t.loadAt m now := by
  have stays : (takenOver t' m ctxUri).connectState.currentTrack.isAutoplay = false := by
    change (t'.connectState.player.track.getD .new).isAutoplay = false
    rw [current]
    exact context
  change andThen (ConnectTask.placeTransferred
    (if (takenOver t' m ctxUri).connectState.currentTrack.isAutoplay || false then _
      else takenOver t' m ctxUri) m loadFromContextUri) _ = _
  rw [stays]
  rfl

/-- The rest of the transfer is left for the context that is resolved. -/
theorem takeOver_waiting (calls : t'.calls = t.calls ++ [.activated])
    (current : t'.connectState.player.track = some track) (context : track.isAutoplay = false)
    (playable : SpotifyUri.fromUri track.uri.toList = .ok id)
    (waits : loadFromContextUri = true ∨ t'.connectState.context = none) :
    Survives t id (t'.takeOver m ctxUri false loadFromContextUri now around) ↔
      Fits (m.playback.position now) := by
  have places : (takenOver t' m ctxUri).placeTransferred m loadFromContextUri =
      ({ takenOver t' m ctxUri with transferState := some (m.state none) }, .ok ()) := by
    rcases waits with uri | absent
    · rw [placeTransferred, if_pos uri]
    · have missing : (takenOver t' m ctxUri).connectState.getContext .default =
          .error (.noContext .default) := by
        change t'.connectState.context.elim _ _ = _
        rw [absent]
        rfl
      simp only [placeTransferred, missing]
      split <;> rfl
  rw [takeOver_eq current context, places]
  exact loadAt_survives_iff m now calls current playable

/-- The track is looked up in the context that came with the message. -/
theorem takeOver_searching {ctx : StateContext} (calls : t'.calls = t.calls ++ [.activated])
    (current : t'.connectState.player.track = some track) (context : track.isAutoplay = false)
    (playable : SpotifyUri.fromUri track.uri.toList = .ok id)
    (loaded : t'.connectState.context = some ctx) :
    Survives t id (t'.takeOver m ctxUri false false now around) ↔
      Fits (m.playback.position now) ∧ track.uri ∈ ctx.tracks.vec.map ProvidedTrack.uri := by
  generalize taken : takenOver t' m ctxUri = t₁
  have calls₁ : t₁.calls = t.calls ++ [.activated] := by
    rw [← taken]
    exact calls
  have uri : t₁.connectState.currentTrack.uri = track.uri := by
    rw [← taken]
    change (t'.connectState.player.track.getD .new).uri = track.uri
    rw [current]
    rfl
  have found : t₁.connectState.getContext .default = .ok ctx := by
    rw [← taken]
    change t'.connectState.context.elim _ _ = _
    rw [loaded]
    rfl
  have active : t₁.connectState.getContext t₁.connectState.activeContext = .ok ctx := by
    rw [← taken] at found ⊢
    exact found
  cases searched : ctx.tracks.vec.findIdx? fun pt => pt.uri == track.uri with
  | none =>
    have places : t₁.placeTransferred m false =
        (t₁, .error (.state (.canNotFindTrackInContext none ctx.tracks.vec.length))) := by
      simp only [placeTransferred, Bool.false_eq_true, if_false, found, findIndexInContext, uri,
        searched, Option.elim]
    rw [takeOver_eq current context, taken, places]
    refine iff_of_false (not_survives_of_activated calls₁) ?_
    rintro ⟨_, inside⟩
    obtain ⟨pt, member, same⟩ := List.mem_map.mp inside
    have differs := List.findIdx?_eq_none_iff.mp searched pt member
    simp [same] at differs
  | some k =>
    obtain ⟨inside, same, _⟩ := List.findIdx?_eq_some_iff_getElem.mp searched
    have sameUri : ctx.tracks.vec[k].uri = track.uri := by simpa using same
    obtain ⟨done, tracks⟩ := reset_inside active inside
    have places : t₁.placeTransferred m false =
        (t₁.setState (t₁.connectState.resetPlaybackToPosition (some k)).1, .ok ()) := by
      simp only [placeTransferred, Bool.false_eq_true, if_false, found, findIndexInContext, uri,
        searched, Option.elim, done]
      rfl
    have member : track.uri ∈ ctx.tracks.vec.map ProvidedTrack.uri :=
      List.mem_map.mpr ⟨_, List.getElem_mem inside, sameUri⟩
    rw [takeOver_eq current context, taken, places, and_iff_left member]
    rcases tracks with kept | placed
    · have still : t₁.connectState.player.track = some track := by
        rw [← taken]
        exact current
      exact loadAt_survives_iff m now calls₁ (kept.trans still) playable
    · rw [← sameUri] at playable
      exact loadAt_survives_iff m now calls₁ placed playable

end TakeOver

end Outcome

/-! ## Whole transfers -/

theorem replaceDefault_keeps (s : ConnectState) (context : Context) (page : ContextPage)
    (uuid : Nat → String) :
    (s.replaceDefault context page uuid).player.track = s.player.track ∧
      ∃ ctx, (s.replaceDefault context page uuid).context = some ctx ∧
        ctx.tracks.vec.map ProvidedTrack.uri = AutoplayLoading.pageUris page := by
  have uris := AutoplayLoading.uris_stateContextFromPage s page context.metadata
    context.restrictions context.uri (some 0) none uuid
  simp only [replaceDefault]
  split
  · obtain ⟨_, track, tracks⟩ := keepPosition_keeps s (s.stateContextFromPage page context.metadata
      context.restrictions context.uri (some 0) none uuid)
    refine ⟨track, _, rfl, ?_⟩
    rw [tracks]
    exact uris
  · exact ⟨rfl, _, rfl, uris⟩

theorem loadContextFromTracks_eq (s : ConnectState) {tracks : List ContextTrack}
    (nonempty : tracks.isEmpty = false) (uuid : Nat → Nat → String) :
    s.loadContextFromTracks tracks uuid =
      (s.replaceDefault ⟨some "spotify:web-api", some "context://spotify:web-api", [], none,
        [⟨none, tracks, []⟩]⟩ ⟨none, tracks, []⟩ (uuid 0), .ok ()) := by
  have remote : startsWith "spotify:web-api" LOCAL_FILES_IDENTIFIER = false := by decide
  simp only [loadContextFromTracks, updateContext, List.all_cons, List.all_nil, Bool.and_true,
    nonempty, Bool.false_eq_true, if_false, Option.any_some, remote, List.find?_cons,
    Bool.not_false, List.eraseP_cons, cond_true, List.isEmpty_nil, if_true]
  rfl

section Transfer

variable {t : ConnectTask} {m : TransferMessage} {now : Int64} {around : Surroundings}
  {uri : String}
  {track : ProvidedTrack}

theorem receiveTrack_eq (named : m.contextUri = some uri)
    (found : t.connectState.currentTrackFromTransfer (m.state (some uri)) (around.transferUuid 0) =
      .ok track) (ctxUri : Option String) :
    t.receiveTrack m ctxUri around = t.setState
      ((t.connectState.resetContext (ctxUri.elim .completely .whenDifferent)).setTrack track) := by
  have still : (t.connectState.resetContext (ctxUri.elim .completely
      .whenDifferent)).currentTrackFromTransfer (m.state m.contextUri) (around.transferUuid 0) =
        .ok track := by
    rw [currentTrackFromTransfer_congr (resetContext_unavailable _), named]
    exact found
  simp only [receiveTrack, still]

theorem handleTransfer_eq (named : m.contextUri = some uri)
    (found : t.connectState.currentTrackFromTransfer (m.state (some uri)) (around.transferUuid 0) =
      .ok track) :
    t.handleTransfer m now around =
      andThen ((t.receiveTrack m (namedContext uri) around).provideContext m (namedContext uri)
        around)
        fun t provided =>
          t.handleActivate.takeOver m provided false (namedContext uri).isSome now around := by
  have context : (t.receiveTrack m (namedContext uri) around).connectState.currentTrack.isAutoplay
      = false := by
    rw [receiveTrack_eq named found]
    exact transferred_isAutoplay found
  simp only [handleTransfer, named, context, Bool.false_eq_true, if_false]

end Transfer

/-- A transfer of a track that can be played succeeds or changes nothing exactly if its
position fits and the track can be placed. -/
theorem survives_iff (t : ConnectTask) (m : TransferMessage) (now : Int64) (around : Surroundings)
    {uri : String} {track : ProvidedTrack} {id : SpotifyUri} (named : m.contextUri = some uri)
    (found : t.connectState.currentTrackFromTransfer (m.state (some uri)) (around.transferUuid 0) =
      .ok track)
    (playable : SpotifyUri.fromUri track.uri.toList = .ok id) :
    Survives t id (t.handleTransfer m now around) ↔
      Fits (m.playback.position now) ∧ Placed m uri track := by
  have context := transferred_isAutoplay found
  rw [handleTransfer_eq named found, receiveTrack_eq named found]
  by_cases blank : uri = "-" ∨ uri = ""
  · have unnamed : namedContext uri = none := if_pos blank
    rw [unnamed, Placed, imp_iff_right blank]
    cases empty : m.allTracks with
    | nil =>
      -- the track stands for its context, which is not resolved
      simp only [provideContext, empty, List.isEmpty_nil, if_true, true_or, and_true]
      exact takeOver_waiting rfl rfl context playable (.inr rfl)
    | cons first rest =>
      have nonempty : m.allTracks.isEmpty = false := by
        rw [empty]
        rfl
      rw [← empty]
      have present : m.allTracks ≠ [] := by simp [empty]
      simp only [provideContext, nonempty, Bool.false_eq_true, if_false, present, false_or,
        loadContextFromTracks_eq _ nonempty]
      obtain ⟨kept, ctx, loaded, uris⟩ := replaceDefault_keeps
        ((t.connectState.resetContext .completely).setTrack track)
        ⟨some "spotify:web-api", some "context://spotify:web-api", [], none,
          [⟨none, m.allTracks, []⟩]⟩ ⟨none, m.allTracks, []⟩ (around.uuid 0)
      rw [← uris]
      exact takeOver_searching rfl kept context playable loaded
  · have present : namedContext uri = some uri := if_neg blank
    rw [present, Placed, and_iff_left fun other => absurd other blank]
    exact takeOver_waiting rfl rfl context playable (.inl rfl)

def idle : ConnectTask where
  contextResolver := ⟨[], []⟩
  connectState := { ContextRuns.loaded [] none with context := none }
  transferState := none
  isActive := false
  positionAsOfTimestamp := 0
  timestamp := 0
  playStatus := .stopped
  calls := []

/-- One second into the track at a time of the other device's clock. -/
def playingSince (timestamp : Option Int64) : TransferMessage where
  options := none
  playback := ⟨timestamp, some 1000, none⟩
  currentTrack := some ⟨some "spotify:track:0000000000000000000001", some "a", none, []⟩
  context := some ⟨some "spotify:playlist:a", none, [], none, []⟩
  currentUid := none
  isPlayingQueue := false
  queueTracks := []

def playedTrack : SpotifyUri := .track ⟨1⟩

def receivedTrack : ProvidedTrack where
  uri := "spotify:track:0000000000000000000001"
  uid := "a"
  metadata := [("context_uri", "spotify:playlist:a"), ("entity_uri", "spotify:playlist:a")]
  provider := .context

theorem sameClock_survives :
    Survives idle playedTrack
      (idle.handleTransfer (playingSince (some 5000)) 7000 ContextFinishing.surroundings) := by
  have received : idle.connectState.currentTrackFromTransfer
      ((playingSince (some 5000)).state (some "spotify:playlist:a"))
      (ContextFinishing.surroundings.transferUuid 0) = .ok receivedTrack := by
    decide +kernel
  refine (survives_iff idle (playingSince (some 5000)) 7000 ContextFinishing.surroundings rfl
    received ?_).mpr ⟨?_, ?_⟩
  · decide +kernel
  · exact ⟨by decide +kernel, by decide +kernel⟩
  · intro blank
    revert blank
    decide +kernel

/-- The clock of the other device is two seconds ahead, or the message has no timestamp
and the local clock is not near zero. -/
theorem clocksApart_notSurvives :
    ¬ Survives idle playedTrack
      (idle.handleTransfer (playingSince (some 9000)) 7000 ContextFinishing.surroundings) ∧
    ¬ Survives idle playedTrack
      (idle.handleTransfer (playingSince none) 1700000000000 ContextFinishing.surroundings) := by
  constructor
  · exact not_survives_of_calls (by decide +kernel) (by decide +kernel)
  · exact not_survives_of_calls (by decide +kernel) (by decide +kernel)

end Transfers
