import SqueezeboxConnect.Outcomes
import SqueezeboxConnect.PlayerThread

/-!
# What a load leaves behind

Every handler that a load goes through gets one specification: the state it
leaves and the events it adds. The specification of the load itself is split
by the seek it makes on a track it already has: the seek may fail on the track
that just ended, or on one that is playing, paused or preloaded.
-/

namespace PlayerLoads

open AudioDecoder PlayerThread PlayerInternal Outcomes

variable {Uri D S : Type}

def isEnd : PlayerEvent Uri → Bool
  | .endOfTrack .. => true
  | _ => false

def announcedId : PlayerEvent Uri → Option UInt64
  | .playRequestIdChanged id => some id
  | _ => none

/-- Neither an end of track nor a new request id. -/
def Quiet (e : PlayerEvent Uri) : Prop := isEnd e = false ∧ announcedId e = none

def pauseState : PlayerState Uri D → PlayerState Uri D
  | .playing trackId playRequestId track _ suggested =>
    .paused trackId playRequestId track suggested
  | .loading trackId playRequestId _ loader => .loading trackId playRequestId false loader
  | state => state

/-- `q` differs from `p` by the given state and further quiet events. -/
structure Adjusts (p : PlayerInternal Uri D S) (state : PlayerState Uri D)
    (q : PlayerInternal Uri D S) : Prop where
  state_eq : q.state = state
  events_eq : ∃ es, q.events = p.events ++ es ∧ ∀ e ∈ es, Quiet e

theorem adjusts_self (p : PlayerInternal Uri D S) : Adjusts p p.state p :=
  ⟨rfl, [], by simp, by simp⟩

theorem adjusts_state (p : PlayerInternal Uri D S) (state : PlayerState Uri D) :
    Adjusts p state { p with state := state } :=
  ⟨rfl, [], by simp, by simp⟩

variable {p q : PlayerInternal Uri D S} {state : PlayerState Uri D}

/-- Further quiet events, sent in any order with a change of state. -/
theorem adjusts_trans {r : PlayerInternal Uri D S} {state' : PlayerState Uri D}
    (h : Adjusts p state q) (h' : Adjusts q state' r) : Adjusts p state' r := by
  obtain ⟨es, he, hq⟩ := h.events_eq
  obtain ⟨es', he', hq'⟩ := h'.events_eq
  refine ⟨h'.state_eq, es ++ es', by rw [he', he, List.append_assoc], ?_⟩
  intro e hmem
  rcases List.mem_append.mp hmem with hmem | hmem
  · exact hq e hmem
  · exact hq' e hmem

theorem adjusts_same (h : Adjusts p state q) : Adjusts p q.state q :=
  ⟨rfl, h.events_eq⟩

theorem adjusts_sendEvent (h : Adjusts p state q) {e : PlayerEvent Uri} (quiet : Quiet e) :
    Adjusts p state (q.sendEvent e) := by
  refine adjusts_trans h ⟨h.state_eq, [e], rfl, ?_⟩
  simpa using quiet

/-- Only the sink and its status have changed. -/
def SinkOnly (p q : PlayerInternal Uri D S) : Prop :=
  ∃ sink status, q = { p with sink := sink, sinkStatus := status }

theorem sinkOnly_adjusts (h : SinkOnly p q) : Adjusts p p.state q := by
  obtain ⟨sink, status, rfl⟩ := h
  exact ⟨rfl, [], by simp, by simp⟩

section Sinks
variable [Sink S] (p)

theorem ensureSinkStopped_frame (temporarily : Bool) :
    Yields (ensureSinkStopped p temporarily) (SinkOnly p)
      (fun e => e.reason = .sinkStop ∧ SinkOnly p e.player) := by
  unfold ensureSinkStopped
  split
  · split
    · exact ⟨_, _, rfl⟩
    · exact ⟨rfl, _, _, rfl⟩
  · split
    · exact ⟨_, _, rfl⟩
    · exact ⟨_, _, rfl⟩
  · exact ⟨_, _, rfl⟩

theorem ensureSinkStopped_spec (temporarily : Bool) :
    Yields (ensureSinkStopped p temporarily) (Adjusts p p.state)
      (fun e => e.reason = .sinkStop ∧ Adjusts p p.state e.player) :=
  yields_mono (ensureSinkStopped_frame p temporarily) (fun _ hq => sinkOnly_adjusts hq)
    (fun _ he => ⟨he.1, sinkOnly_adjusts he.2⟩)

theorem handlePause_spec :
    Yields (handlePause p) (Adjusts p (pauseState p.state))
      (fun e => e.reason = .sinkStop ∧ Adjusts p (pauseState p.state) e.player) := by
  unfold handlePause
  split
  · rename_i hs
    simpa only [hs, pauseState] using ensureSinkStopped_spec p false
  · rename_i trackId id track reported suggested hs
    have paused := adjusts_state p (.paused trackId id track suggested)
    simp only [playingToPaused, hs, pauseState, yields_ok_bind]
    refine yields_bind (Adjusts p (.paused trackId id track suggested)) ?_ ?_
    · refine yields_mono (ensureSinkStopped_spec _ false) ?_ ?_
      · exact fun q hq => adjusts_trans paused hq
      · exact fun e he => ⟨he.1, adjusts_trans paused he.2⟩
    · exact fun q hq => adjusts_sendEvent hq ⟨rfl, rfl⟩
  · rename_i hs
    rw [hs]
    exact adjusts_state p _
  · rename_i hPaused hPlaying hLoading
    have same : pauseState p.state = p.state := by
      cases hs : p.state with
      | playing => exact absurd hs (hPlaying _ _ _ _ _)
      | loading => exact absurd hs (hLoading _ _ _ _)
      | _ => rfl
    rw [same]
    exact adjusts_self p

/-- A sink that does not start pauses the player. -/
theorem ensureSinkRunning_spec :
    Yields (ensureSinkRunning p)
      (fun q => SinkOnly p q ∨ Adjusts p (pauseState p.state) q)
      (fun e => e.reason = .sinkStop ∧ Adjusts p (pauseState p.state) e.player) := by
  unfold ensureSinkRunning
  split
  · exact Or.inl ⟨_, _, rfl⟩
  · split
    · exact Or.inl ⟨_, _, rfl⟩
    · rename_i sink _
      refine yields_mono (handlePause_spec { p with sink := sink }) ?_ ?_
      · exact fun q hq => Or.inr ⟨hq.state_eq, hq.events_eq⟩
      · exact fun e he => ⟨he.1, he.2.state_eq, he.2.events_eq⟩

/-- A process that ends here ends because the sink does not stop. -/
def StopsQuietly (p : PlayerInternal Uri D S) (e : Exit Uri D S) : Prop :=
  e.reason = .sinkStop ∧ Adjusts p e.player.state e.player

/-- A track has just been started, or is held at its first position. -/
def Started (playRequestId : UInt64) : PlayerState Uri D → Prop
  | .playing _ id .. => id = playRequestId
  | .paused _ id .. => id = playRequestId
  | _ => False

theorem started_playRequestId {playRequestId : UInt64} (h : Started playRequestId state) :
    state.playRequestId = some playRequestId := by
  cases state with
  | playing => exact congrArg some h
  | paused => exact congrArg some h
  | _ => exact False.elim h

theorem startPlayback_spec (env : Env) (trackId : Uri) (playRequestId : UInt64)
    (loadedTrack : PlayerLoadedTrackData Uri D) (start : Bool) :
    Yields (startPlayback p env trackId playRequestId loadedTrack start)
      (fun q => Started playRequestId q.state ∧ Adjusts p q.state q) (StopsQuietly p) := by
  have changed := adjusts_sendEvent (adjusts_self p) (e := .trackChanged loadedTrack.audioItem)
    ⟨rfl, rfl⟩
  cases start with
  | true =>
    refine yields_bind (fun q => Adjusts p q.state q) ?_ ?_
    · refine yields_mono (ensureSinkRunning_spec _) ?_ ?_
      · rintro q (hq | hq)
        · exact adjusts_trans changed (adjusts_same (sinkOnly_adjusts hq))
        · exact adjusts_trans changed (adjusts_same hq)
      · exact fun e he => ⟨he.1, adjusts_trans changed (adjusts_same he.2)⟩
    · intro q hq
      refine ⟨rfl, adjusts_trans (adjusts_sendEvent hq ?_) (adjusts_state _ _)⟩
      exact ⟨rfl, rfl⟩
  | false =>
    refine yields_bind (fun q => Adjusts p q.state q) ?_ ?_
    · refine yields_mono (ensureSinkStopped_spec _ false) ?_ ?_
      · exact fun q hq => adjusts_trans changed (adjusts_same hq)
      · exact fun e he => ⟨he.1, adjusts_trans changed (adjusts_same he.2)⟩
    · intro q hq
      refine ⟨rfl, adjusts_sendEvent (adjusts_trans hq (adjusts_state _ _)) ?_⟩
      exact ⟨rfl, rfl⟩

theorem restartTrack_spec (env : Env) (trackId : Uri) (playRequestId : UInt64)
    (loadedTrack : PlayerLoadedTrackData Uri D) (play : Bool) :
    Yields (restartTrack p env trackId playRequestId loadedTrack play)
      (fun r => Started playRequestId r.1.state ∧ Adjusts p r.1.state r.1) (StopsQuietly p) := by
  let p' : PlayerInternal Uri D S := { p with state := .invalid, preload := .none }
  have moved : Adjusts p .invalid p' := ⟨rfl, [], by simp [p'], by simp⟩
  refine yields_bind (fun q => Started playRequestId q.state ∧ Adjusts p q.state q) ?_ ?_
  · refine yields_mono (startPlayback_spec p' env trackId playRequestId loadedTrack play) ?_ ?_
    · exact fun q hq => ⟨hq.1, adjusts_trans moved hq.2⟩
    · exact fun e he => ⟨he.1, adjusts_trans moved he.2⟩
  · intro q hq
    split
    · exact hq
    · exact hq

/-- The sink does not keep a load from being carried out. -/
def reachesLoad (p : PlayerInternal Uri D S) : Bool :=
  p.config.gapless ||
    match p.sinkStatus with
    | .running => (Sink.stop p.sink).1.isOk
    | _ => true

theorem stopBeforeLoad_frame (play : Bool) :
    Yields (stopBeforeLoad p play) (SinkOnly p)
      (fun e => e.reason = .sinkStop ∧ SinkOnly p e.player) := by
  unfold stopBeforeLoad
  split
  · exact ⟨_, _, rfl⟩
  · exact ensureSinkStopped_frame p play

theorem stopBeforeLoad_returns_iff (play : Bool) :
    (stopBeforeLoad p play).isOk = reachesLoad p := by
  unfold stopBeforeLoad reachesLoad ensureSinkStopped
  by_cases gapless : p.config.gapless = true
  · simp only [gapless, Bool.true_or]; rfl
  · simp only [gapless, Bool.false_or]
    cases hstatus : p.sinkStatus with
    | closed => rfl
    | temporarilyClosed => cases play <;> rfl
    | running =>
      rcases hstop : Sink.stop p.sink with ⟨_ | _, sink⟩
      · rfl
      · rfl

theorem stopBeforeLoad_reached (play : Bool)
    (reaches : reachesLoad p = true) : ∃ q, stopBeforeLoad p play = .ok q ∧ SinkOnly p q := by
  have returns := stopBeforeLoad_returns_iff p play
  have frame := stopBeforeLoad_frame p play
  cases h : stopBeforeLoad p play with
  | ok q =>
    rw [h] at frame
    exact ⟨q, rfl, frame⟩
  | error e =>
    rw [h] at returns
    cases returns.trans reaches

end Sinks

section Loads
variable [DecidableEq Uri] [Decoder D] [Sink S]

/-- The seek that a load makes on a track it already has. -/
def seekFails (track : PlayerLoadedTrackData Uri D) (positionMs : UInt32) : Bool :=
  match (seekLoaded track positionMs).1 with
  | .ok _ => false
  | .error _ => true

def preloadFails (p : PlayerInternal Uri D S) (trackId : Uri) (positionMs : UInt32) : Bool :=
  match p.preload with
  | .ready loadedTrackId loadedTrack => trackId = loadedTrackId && seekFails loadedTrack positionMs
  | _ => false

/-- The load finds its track at its end, and the seek fails. -/
def reloadFails (p : PlayerInternal Uri D S) (trackId : Uri) (positionMs : UInt32) : Bool :=
  match p.state with
  | .endOfTrack previousTrackId _ loadedTrack =>
    previousTrackId = trackId && seekFails loadedTrack positionMs
  | _ => false

/-- The load finds its track playing, paused or preloaded, and the seek fails. -/
def reuseFails (p : PlayerInternal Uri D S) (trackId : Uri) (positionMs : UInt32) : Bool :=
  match p.state with
  | .playing currentTrackId _ track _ _ =>
    if currentTrackId = trackId then seekFails track positionMs
    else preloadFails p trackId positionMs
  | .paused currentTrackId _ track _ =>
    if currentTrackId = trackId then seekFails track positionMs
    else preloadFails p trackId positionMs
  | .endOfTrack previousTrackId _ _ =>
    if previousTrackId = trackId then false else preloadFails p trackId positionMs
  | .stopped => preloadFails p trackId positionMs
  | .loading .. => preloadFails p trackId positionMs
  | .invalid => false

/-- What a load leaves behind, by the way its seek went. -/
structure LoadResult (p : PlayerInternal Uri D S) (trackId : Uri) (playRequestId : UInt64)
    (positionMs : UInt32) (q : PlayerInternal Uri D S) : Prop where
  quiet : Adjusts p q.state q
  reload : reloadFails p trackId positionMs = true → q.state = .invalid
  invalid : p.state = .invalid → q.state = .invalid
  reuse : reuseFails p trackId positionMs = true →
    q.state.playRequestId = p.state.playRequestId ∧ q.state.isInvalid = false
  fresh : reloadFails p trackId positionMs = false → reuseFails p trackId positionMs = false →
    p.state.isInvalid = false → q.state.playRequestId = some playRequestId

variable (p) (env : Env) (trackId : Uri) (playRequestId : UInt64) (play : Bool)
  (positionMs : UInt32)

theorem loadFromPreload_spec :
    Yields (loadFromPreload p env trackId playRequestId play positionMs)
      (fun r => Adjusts p r.1.state r.1 ∧
        (preloadFails p trackId positionMs = true → r.1.state = p.state) ∧
        (preloadFails p trackId positionMs = false →
          r.1.state.playRequestId = some playRequestId)) (StopsQuietly p) := by
  have loading : Adjusts p (p.startLoading trackId playRequestId play positionMs).state
      (p.startLoading trackId playRequestId play positionMs) :=
    ⟨rfl, [.loading playRequestId trackId positionMs], rfl, by simp [Quiet, isEnd, announcedId]⟩
  unfold loadFromPreload
  cases hp : p.preload with
  | none => exact ⟨loading, by simp [preloadFails, hp], fun _ => rfl⟩
  | «loading» t loader => exact ⟨loading, by simp [preloadFails, hp], fun _ => rfl⟩
  | ready loadedTrackId loadedTrack =>
    by_cases same : trackId = loadedTrackId
    · simp only [if_pos same, startPreloaded, preloadFails, hp, decide_eq_true same,
        Bool.true_and, seekFails]
      have dropped : Adjusts p p.state { p with preload := .none } :=
        ⟨rfl, [], by simp, by simp⟩
      rcases hs : seekLoaded loadedTrack positionMs with ⟨_ | _, track⟩
      · exact ⟨dropped, fun _ => rfl, by simp⟩
      · refine yields_bind (fun q => Started playRequestId q.state ∧ Adjusts p q.state q) ?_ ?_
        · refine yields_mono (startPlayback_spec _ env trackId playRequestId track play) ?_ ?_
          · exact fun q hq => ⟨hq.1, adjusts_trans dropped hq.2⟩
          · exact fun e he => ⟨he.1, adjusts_trans dropped he.2⟩
        · exact fun q hq => ⟨hq.2, by simp, fun _ => started_playRequestId hq.1⟩
    · simp only [if_neg same]
      exact ⟨loading, by simp [preloadFails, hp, same], fun _ => rfl⟩

theorem loadResult_of_preload (valid : p.state.isInvalid = false)
    (noReload : reloadFails p trackId positionMs = false)
    (reuse : reuseFails p trackId positionMs = preloadFails p trackId positionMs) :
    Yields (loadFromPreload p env trackId playRequestId play positionMs)
      (fun r => LoadResult p trackId playRequestId positionMs r.1) (StopsQuietly p) := by
  refine yields_mono (loadFromPreload_spec p env trackId playRequestId play positionMs) ?_
    (fun _ he => he)
  rintro r ⟨quiet, kept, fresh⟩
  refine ⟨quiet, ?_, ?_, ?_, ?_⟩
  · intro h; rw [noReload] at h; cases h
  · intro h; rw [h] at valid; cases valid
  · intro h
    have same := kept (reuse.symm.trans h)
    exact ⟨by rw [same], by rw [same]; exact valid⟩
  · exact fun _ h _ => fresh (reuse.symm.trans h)

theorem loadResult_of_reuse {track : PlayerLoadedTrackData Uri D}
    {keep : PlayerLoadedTrackData Uri D → PlayerState Uri D}
    (kept : ∀ track, (keep track).playRequestId = p.state.playRequestId ∧
      (keep track).isInvalid = false) (valid : p.state.isInvalid = false)
    (noReload : reloadFails p trackId positionMs = false)
    (reuse : reuseFails p trackId positionMs = seekFails track positionMs) :
    Yields (reuseCurrentTrack p env trackId playRequestId track keep play positionMs)
      (fun r => LoadResult p trackId playRequestId positionMs r.1) (StopsQuietly p) := by
  unfold reuseCurrentTrack
  rcases hs : seekLoaded track positionMs with ⟨_ | _, track'⟩
  · have fails : reuseFails p trackId positionMs = true := by rw [reuse]; simp [seekFails, hs]
    refine ⟨adjusts_state p _, ?_, ?_, fun _ => kept track', ?_⟩
    · intro h; rw [noReload] at h; cases h
    · intro h; rw [h] at valid; cases valid
    · intro _ h; rw [fails] at h; cases h
  · have goes : reuseFails p trackId positionMs = false := by rw [reuse]; simp [seekFails, hs]
    refine yields_mono (restartTrack_spec p env trackId playRequestId track' play) ?_
      (fun _ he => he)
    rintro r ⟨started, quiet⟩
    refine ⟨quiet, ?_, ?_, ?_, fun _ _ _ => started_playRequestId started⟩
    · intro h; rw [noReload] at h; cases h
    · intro h; rw [h] at valid; cases valid
    · intro h; rw [goes] at h; cases h

theorem loadResult_of_reload {loadedTrack : PlayerLoadedTrackData Uri D}
    (valid : p.state.isInvalid = false)
    (reload : reloadFails p trackId positionMs = seekFails loadedTrack positionMs)
    (noReuse : reuseFails p trackId positionMs = false) :
    Yields (reloadEndOfTrack p env trackId playRequestId loadedTrack play positionMs)
      (fun r => LoadResult p trackId playRequestId positionMs r.1) (StopsQuietly p) := by
  unfold reloadEndOfTrack
  rcases hs : seekLoaded loadedTrack positionMs with ⟨_ | _, track⟩
  · have fails : reloadFails p trackId positionMs = true := by rw [reload]; simp [seekFails, hs]
    refine ⟨adjusts_state p _, fun _ => rfl, fun _ => rfl, ?_, ?_⟩
    · intro h; rw [noReuse] at h; cases h
    · intro h; rw [fails] at h; cases h
  · have goes : reloadFails p trackId positionMs = false := by rw [reload]; simp [seekFails, hs]
    refine yields_mono (restartTrack_spec p env trackId playRequestId track play) ?_
      (fun _ he => he)
    rintro r ⟨started, quiet⟩
    refine ⟨quiet, ?_, ?_, ?_, fun _ _ _ => started_playRequestId started⟩
    · intro h; rw [goes] at h; cases h
    · intro h; rw [h] at valid; cases valid
    · intro h; rw [noReuse] at h; cases h

/-- The four routes of a load, each with the seek that it can fail on. -/
@[elab_as_elim]
theorem loadTrack_cases
    {motive : Process Uri D S (PlayerInternal Uri D S × PlayerResult) → Prop}
    (invalid : p.state = .invalid → motive (.ok (p, .error .loadFromInvalidState)))
    (ended : ∀ loadedTrack, p.state.isInvalid = false →
      reloadFails p trackId positionMs = seekFails loadedTrack positionMs →
      reuseFails p trackId positionMs = false →
      motive (reloadEndOfTrack p env trackId playRequestId loadedTrack play positionMs))
    (current : ∀ track keep, p.state.isInvalid = false →
      (∀ track, (keep track).playRequestId = p.state.playRequestId ∧
        (keep track).isInvalid = false) →
      reloadFails p trackId positionMs = false →
      reuseFails p trackId positionMs = seekFails track positionMs →
      motive (reuseCurrentTrack p env trackId playRequestId track keep play positionMs))
    (other : p.state.isInvalid = false → reloadFails p trackId positionMs = false →
      reuseFails p trackId positionMs = preloadFails p trackId positionMs →
      motive (loadFromPreload p env trackId playRequestId play positionMs)) :
    motive (loadTrack p env trackId playRequestId play positionMs) := by
  unfold loadTrack
  unfold reloadFails reuseFails at ended current other
  cases hs : p.state with
  | invalid => exact invalid hs
  | stopped | loading =>
    simp only [hs] at other
    exact other rfl trivial trivial
  | playing currentTrackId id track reported suggested
  | paused currentTrackId id track suggested =>
    simp only [hs] at current other
    by_cases same : currentTrackId = trackId
    · simp only [if_pos same] at current ⊢
      exact current track _ rfl (fun _ => ⟨rfl, rfl⟩) trivial rfl
    · simp only [if_neg same] at other ⊢
      exact other rfl trivial trivial
  | endOfTrack previousTrackId id loadedTrack =>
    simp only [hs] at ended other
    by_cases same : previousTrackId = trackId
    · simp only [if_pos same] at ended ⊢
      exact ended loadedTrack rfl (by simp [same]) trivial
    · simp only [if_neg same] at other ⊢
      exact other rfl (by simp [same]) trivial

theorem loadTrack_spec :
    Yields (loadTrack p env trackId playRequestId play positionMs)
      (fun r => LoadResult p trackId playRequestId positionMs r.1) (StopsQuietly p) := by
  refine loadTrack_cases p env trackId playRequestId play positionMs ?_ ?_ ?_ ?_
  · intro hs
    refine ⟨adjusts_self p, fun _ => hs, fun _ => hs, ?_, ?_⟩
    · intro h; simp [reuseFails, hs] at h
    · intro _ _ h; simp [hs, PlayerState.isInvalid] at h
  · intro loadedTrack valid reload noReuse
    exact loadResult_of_reload _ _ _ _ _ _ valid reload noReuse
  · intro track keep valid kept noReload reuse
    exact loadResult_of_reuse _ _ _ _ _ _ kept valid noReload reuse
  · intro valid noReload reuse
    exact loadResult_of_preload _ _ _ _ _ _ valid noReload reuse

/-- What a load leaves behind, counted from the player that received the command. -/
structure LoadedFrom (p : PlayerInternal Uri D S) (trackId : Uri)
    (playRequestIdOption : Option UInt64) (positionMs : UInt32) (q : PlayerInternal Uri D S) :
    Prop where
  events_eq : ∃ es, q.events =
    p.events ++ .playRequestIdChanged (p.requestId playRequestIdOption) :: es ∧ ∀ e ∈ es, Quiet e
  reload : reloadFails p trackId positionMs = true → q.state = .invalid
  invalid : p.state = .invalid → q.state = .invalid
  reuse : reuseFails p trackId positionMs = true →
    q.state.playRequestId = p.state.playRequestId ∧ q.state.isInvalid = false
  fresh : reloadFails p trackId positionMs = false → reuseFails p trackId positionMs = false →
    p.state.isInvalid = false →
    q.state.playRequestId = some (p.requestId playRequestIdOption)

/-- The events of a process that ends during a load. -/
def EndsAnnounced (p : PlayerInternal Uri D S) (playRequestIdOption : Option UInt64)
    (e : Exit Uri D S) : Prop :=
  e.reason = .sinkStop ∧ ∃ es, e.player.events =
    p.events ++ .playRequestIdChanged (p.requestId playRequestIdOption) :: es ∧ ∀ e ∈ es, Quiet e

theorem handleCommandLoad_spec (p : PlayerInternal Uri D S) (env : Env) (trackId : Uri)
    (playRequestIdOption : Option UInt64) (play : Bool) (positionMs : UInt32) :
    Yields (handleCommandLoad p env trackId playRequestIdOption play positionMs)
      (fun r => LoadedFrom p trackId playRequestIdOption positionMs r.1)
      (EndsAnnounced p playRequestIdOption) := by
  have shift : ∀ {q r : PlayerInternal Uri D S} {state},
      SinkOnly (p.announce playRequestIdOption) q → Adjusts q state r →
      ∃ es, r.events = p.events ++
        .playRequestIdChanged (p.requestId playRequestIdOption) :: es ∧ ∀ e ∈ es, Quiet e := by
    rintro q r state ⟨sink, status, rfl⟩ ⟨_, es, he, quiet⟩
    exact ⟨es, by simpa [announce, sendEvent] using he, quiet⟩
  refine yields_bind (SinkOnly (p.announce playRequestIdOption)) ?_ ?_
  · refine yields_mono (stopBeforeLoad_frame _ play) (fun _ hq => hq) ?_
    exact fun e he => ⟨he.1, shift he.2 (adjusts_self _)⟩
  · intro q hq
    refine yields_mono (loadTrack_spec q env trackId (p.requestId playRequestIdOption) play
      positionMs) ?_ (fun e he => ⟨he.1, shift hq he.2⟩)
    intro r hr
    have events := shift hq hr.quiet
    obtain ⟨sink, status, rfl⟩ := hq
    exact ⟨events, hr.reload, hr.invalid, hr.reuse, hr.fresh⟩

/-- The preloaded track is dropped when its decoder cannot seek. -/
theorem loadFromPreload_fails
    (fails : preloadFails p trackId positionMs = true) :
    ∃ e, loadFromPreload p env trackId playRequestId play positionMs =
      .ok ({ p with preload := .none }, .error (.aborted e)) := by
  unfold loadFromPreload
  cases hp : p.preload with
  | none => simp [preloadFails, hp] at fails
  | loading => simp [preloadFails, hp] at fails
  | ready loadedTrackId loadedTrack =>
    simp only [preloadFails, hp, Bool.and_eq_true, decide_eq_true_eq] at fails
    obtain ⟨same, seek⟩ := fails
    simp only [if_pos same, startPreloaded]
    rcases hs : seekLoaded loadedTrack positionMs with ⟨e | _, track⟩
    · exact ⟨e, rfl⟩
    · simp [seekFails, hs] at seek

theorem loadFromPreload_returns
    (fails : preloadFails p trackId positionMs = true) :
    ∃ r, loadFromPreload p env trackId playRequestId play positionMs = .ok r := by
  obtain ⟨e, he⟩ := loadFromPreload_fails p env trackId playRequestId play positionMs fails
  exact ⟨_, he⟩

omit [DecidableEq Uri] in
theorem reuseCurrentTrack_returns (track : PlayerLoadedTrackData Uri D)
    (keep : PlayerLoadedTrackData Uri D → PlayerState Uri D)
    (fails : seekFails track positionMs = true) :
    ∃ r, reuseCurrentTrack p env trackId playRequestId track keep play positionMs = .ok r := by
  unfold reuseCurrentTrack
  rcases hs : seekLoaded track positionMs with ⟨_ | _, track'⟩
  · exact ⟨_, rfl⟩
  · simp [seekFails, hs] at fails

omit [DecidableEq Uri] in
theorem reloadEndOfTrack_returns (loadedTrack : PlayerLoadedTrackData Uri D)
    (fails : seekFails loadedTrack positionMs = true) :
    ∃ r, reloadEndOfTrack p env trackId playRequestId loadedTrack play positionMs = .ok r := by
  unfold reloadEndOfTrack
  rcases hs : seekLoaded loadedTrack positionMs with ⟨_ | _, track⟩
  · exact ⟨_, rfl⟩
  · simp [seekFails, hs] at fails

/-- A failing seek is an early return: no sink is touched on the way out. -/
theorem loadTrack_returns
    (fails : reloadFails p trackId positionMs = true ∨ reuseFails p trackId positionMs = true) :
    ∃ r, loadTrack p env trackId playRequestId play positionMs = .ok r := by
  refine loadTrack_cases p env trackId playRequestId play positionMs ?_ ?_ ?_ ?_
  · exact fun _ => ⟨_, rfl⟩
  · intro loadedTrack _ reload noReuse
    refine reloadEndOfTrack_returns p env trackId playRequestId play positionMs loadedTrack ?_
    simpa [reload, noReuse] using fails
  · intro track keep _ _ noReload reuse
    refine reuseCurrentTrack_returns p env trackId playRequestId play positionMs track keep ?_
    simpa [noReload, reuse] using fails
  · intro _ noReload reuse
    refine loadFromPreload_returns p env trackId playRequestId play positionMs ?_
    simpa [noReload, reuse] using fails

theorem handleCommandLoad_returns (p : PlayerInternal Uri D S) (env : Env) (trackId : Uri)
    (playRequestIdOption : Option UInt64) (play : Bool) (positionMs : UInt32)
    (reaches : reachesLoad p = true)
    (fails : reloadFails p trackId positionMs = true ∨ reuseFails p trackId positionMs = true) :
    ∃ r, handleCommandLoad p env trackId playRequestIdOption play positionMs = .ok r := by
  obtain ⟨q, hq, frame⟩ := stopBeforeLoad_reached (p.announce playRequestIdOption) play reaches
  have fails' : reloadFails q trackId positionMs = true ∨
      reuseFails q trackId positionMs = true := by
    obtain ⟨sink, status, rfl⟩ := frame
    exact fails
  obtain ⟨r, hr⟩ := loadTrack_returns q env trackId (p.requestId playRequestIdOption) play
    positionMs fails'
  exact ⟨r, by rw [handleCommandLoad, hq]; exact hr⟩

end Loads

end PlayerLoads
