import SqueezeboxConnect.PlayerGuarantees

/-!
# Sinks that do not start

When the sink cannot be started the player is paused, by a function that does
not tell its caller. A `Play` command comes back to a paused player. A track
that starts is put into the playing state all the same, and the packet phase
ends the process, because it takes the player to be playing still.
-/

namespace SinkFailures

open AudioDecoder PlayerThread PlayerInternal Outcomes Runs PlayerGuarantees

variable {Uri D S : Type}

/-- A sink with the number of starts that have failed. -/
structure Recorded (S : Type) where
  sink : S
  failures : Nat

instance [Sink S] : Sink (Recorded S) where
  start r :=
    match Sink.start r.sink with
    | (.ok _, sink) => (.ok (), { r with sink := sink })
    | (.error e, sink) => (.error e, ⟨sink, r.failures + 1⟩)
  stop r :=
    let (result, sink) := Sink.stop r.sink
    (result, { r with sink := sink })
  write r packet :=
    let (result, sink) := Sink.write r.sink packet
    (result, { r with sink := sink })

/-- Paused, or loading a track that is not going to be played. -/
def held : PlayerState Uri D → Bool
  | .paused .. => true
  | .loading _ _ startPlayback _ => !startPlayback
  | _ => false

/-- The failed starts, also those of a process that has ended. -/
def failuresOf : Process Uri D (Recorded S) (PlayerInternal Uri D (Recorded S)) → Nat
  | .ok p => p.sink.failures
  | .error e => e.player.sink.failures

def Unfailed (p q : PlayerInternal Uri D (Recorded S)) : Prop :=
  q.sink.failures = p.sink.failures

/-- No start has failed, or the player plays on. -/
def Unheld (p q : PlayerInternal Uri D (Recorded S)) : Prop :=
  Unfailed p q ∨ q.state.isPlaying = true

section Sinks

variable [Sink S] (p : PlayerInternal Uri D (Recorded S))

theorem start_failures (r : Recorded S) :
    match Sink.start r with
    | (.ok _, r') => r'.failures = r.failures
    | (.error _, r') => r'.failures = r.failures + 1 := by
  simp only [Sink.start]
  split
  all_goals
    rename_i started
    split at started
    all_goals
      cases started
      try rfl

theorem stop_failures (r : Recorded S) : (Sink.stop r).2.failures = r.failures := rfl

theorem write_failures (r : Recorded S) (packet : AudioPacket) :
    (Sink.write r packet).2.failures = r.failures := rfl

theorem ensureSinkStopped_unfailed (temporarily : Bool) :
    Yields (ensureSinkStopped p temporarily) (Unfailed p) fun e => Unfailed p e.player := by
  have counted := stop_failures p.sink
  unfold ensureSinkStopped
  split
  · split
    all_goals
      rename_i stopped
      rw [stopped] at counted
      exact counted
  · split
    all_goals rfl
  · rfl

theorem handlePause_unfailed :
    Yields (handlePause p) (Unfailed p) fun e => Unfailed p e.player := by
  unfold handlePause
  split
  · exact ensureSinkStopped_unfailed p false
  · rename_i playing
    simp only [playingToPaused, playing, yields_ok_bind]
    refine yields_bind (Unfailed p) (ensureSinkStopped_unfailed _ false) ?_
    exact fun q same => same
  · rfl
  · rfl

theorem handlePause_returns (stopped : p.sinkStatus ≠ .running) :
    ∃ q, handlePause p = .ok q ∧ q.state = PlayerLoads.pauseState p.state := by
  have closes : ∀ r : PlayerInternal Uri D (Recorded S), r.sinkStatus = p.sinkStatus →
      ∃ q, ensureSinkStopped r false = .ok q ∧ q.state = r.state := by
    intro r same
    rw [ensureSinkStopped, same]
    cases status : p.sinkStatus with
    | running => exact absurd status stopped
    | closed => exact ⟨r, rfl, rfl⟩
    | temporarilyClosed => exact ⟨_, rfl, rfl⟩
  unfold handlePause
  cases state : p.state with
  | paused trackId id track suggested =>
    obtain ⟨q, returned, same⟩ := closes p rfl
    exact ⟨q, returned, same.trans state⟩
  | playing trackId id track reported suggested =>
    obtain ⟨q, returned, same⟩ := closes { p with state := .paused trackId id track suggested } rfl
    refine ⟨q.sendEvent (.paused id trackId track.streamPositionMs), ?_, same⟩
    simp only [playingToPaused, state]
    change (ensureSinkStopped { p with state := .paused trackId id track suggested } false >>= _) =
      _
    rw [returned]
    rfl
  | loading trackId id start loader => exact ⟨_, rfl, rfl⟩
  | stopped => exact ⟨p, rfl, state⟩
  | endOfTrack trackId id track => exact ⟨p, rfl, state⟩
  | invalid => exact ⟨p, rfl, state⟩

/-- Starting the sink returns: the sink runs in the state as it was, or the player is paused. -/
theorem ensureSinkRunning_returns :
    ∃ q, ensureSinkRunning p = .ok q ∧
      (Unfailed p q ∧ q.state = p.state ∨ q.state = PlayerLoads.pauseState p.state) := by
  unfold ensureSinkRunning
  split
  · exact ⟨p, rfl, Or.inl ⟨rfl, rfl⟩⟩
  · rename_i stopped
    have counted := start_failures p.sink
    split
    · rename_i started
      rw [started] at counted
      exact ⟨_, rfl, Or.inl ⟨counted, rfl⟩⟩
    · rename_i sink _
      obtain ⟨q, returned, paused⟩ := handlePause_returns { p with sink := sink } stopped
      exact ⟨q, returned, Or.inr paused⟩

theorem handlePlay_held (env : Env) :
    ∃ q, handlePlay p env = .ok q ∧ (Unfailed p q ∨ held q.state = true) := by
  unfold handlePlay
  split
  · rename_i trackId id track suggested paused
    simp only [pausedToPlaying, paused]
    let state := PlayerState.playing trackId id track (checkedSub env.now track.streamPositionMs)
      suggested
    let started := { p with state := state }.sendEvent (.playing id trackId track.streamPositionMs)
    obtain ⟨q, returned, outcome⟩ := ensureSinkRunning_returns started
    refine ⟨q, returned, ?_⟩
    rcases outcome with ⟨same, -⟩ | state
    · exact Or.inl same
    · right
      rw [state]
      rfl
  · refine ⟨_, rfl, Or.inl rfl⟩
  · refine ⟨_, rfl, Or.inl rfl⟩

/-- A track that starts is playing, whatever has become of the sink. -/
theorem startPlayback_unheld (env : Env) (trackId : Uri) (id : UInt64)
    (track : PlayerLoadedTrackData Uri D) (start : Bool) :
    Yields (startPlayback p env trackId id track start) (Unheld p) fun _ => True := by
  unfold startPlayback
  cases start with
  | true =>
    obtain ⟨q, returned, -⟩ :=
      ensureSinkRunning_returns (p.sendEvent (.trackChanged track.audioItem))
    simp only [if_true, returned]
    exact Or.inr rfl
  | false =>
    simp only [Bool.false_eq_true, if_false]
    refine yields_bind (Unfailed p) ?_ ?_
    · exact yields_mono (ensureSinkStopped_unfailed _ false) (fun _ same => same) fun _ _ => trivial
    · exact fun q same => Or.inl same

end Sinks

section Phases

variable [DecidableEq Uri] [Decoder D] [Sink S] (p : PlayerInternal Uri D (Recorded S))

omit [DecidableEq Uri] [Decoder D] in
theorem restartTrack_unheld (env : Env) (trackId : Uri) (id : UInt64)
    (track : PlayerLoadedTrackData Uri D) (play : Bool) :
    Yields (restartTrack p env trackId id track play) (fun r => Unheld p r.1) fun _ => True := by
  refine yields_bind (Unheld p)
    (startPlayback_unheld
      { p with state := .invalid, preload := .none } env trackId id track play) ?_
  intro q unheld
  split
  all_goals exact unheld

theorem loadFromPreload_unheld (env : Env) (trackId : Uri) (id : UInt64) (play : Bool)
    (positionMs : UInt32) :
    Yields (loadFromPreload p env trackId id play positionMs) (fun r => Unheld p r.1)
      fun _ => True := by
  unfold loadFromPreload
  split
  · split
    · unfold startPreloaded
      split
      · exact Or.inl rfl
      · refine yields_bind (Unheld p) (startPlayback_unheld { p with preload := .none } ..) ?_
        exact fun q unheld => unheld
    · exact Or.inl rfl
  · exact Or.inl rfl

omit [DecidableEq Uri] in
theorem reuseCurrentTrack_unheld (env : Env) (trackId : Uri) (id : UInt64)
    (track : PlayerLoadedTrackData Uri D) (keep : PlayerLoadedTrackData Uri D → PlayerState Uri D)
    (play : Bool) (positionMs : UInt32) :
    Yields (reuseCurrentTrack p env trackId id track keep play positionMs) (fun r => Unheld p r.1)
      fun _ => True := by
  unfold reuseCurrentTrack
  split
  · exact Or.inl rfl
  · exact restartTrack_unheld p env trackId id _ play

omit [DecidableEq Uri] in
theorem reloadEndOfTrack_unheld (env : Env) (trackId : Uri) (id : UInt64)
    (loadedTrack : PlayerLoadedTrackData Uri D) (play : Bool) (positionMs : UInt32) :
    Yields (reloadEndOfTrack p env trackId id loadedTrack play positionMs)
      (fun r => Unheld p r.1) fun _ => True := by
  unfold reloadEndOfTrack
  split
  · exact Or.inl rfl
  · exact restartTrack_unheld p env trackId id _ play

theorem loadTrack_unheld (env : Env) (trackId : Uri) (id : UInt64) (play : Bool)
    (positionMs : UInt32) :
    Yields (loadTrack p env trackId id play positionMs) (fun r => Unheld p r.1) fun _ => True := by
  refine PlayerLoads.loadTrack_cases p env trackId id play positionMs ?_ ?_ ?_ ?_
  · exact fun _ => Or.inl rfl
  · exact fun loadedTrack _ _ _ =>
      reloadEndOfTrack_unheld p env trackId id loadedTrack play positionMs
  · exact fun track keep _ _ _ _ =>
      reuseCurrentTrack_unheld p env trackId id track keep play positionMs
  · exact fun _ _ _ => loadFromPreload_unheld p env trackId id play positionMs

theorem handleCommandLoad_unheld (env : Env) (trackId : Uri) (option : Option UInt64)
    (play : Bool) (positionMs : UInt32) :
    Yields (handleCommandLoad p env trackId option play positionMs) (fun r => Unheld p r.1)
      fun _ => True := by
  have stopped : Yields (stopBeforeLoad (p.announce option) play) (Unfailed p) fun _ => True := by
    unfold stopBeforeLoad
    split
    · rfl
    · exact yields_mono (ensureSinkStopped_unfailed _ play) (fun _ same => same) fun _ _ => trivial
  refine yields_bind (Unfailed p) stopped ?_
  intro q same
  refine yields_mono (loadTrack_unheld q env trackId _ play positionMs) ?_ fun _ done => done
  rintro r (same' | playing)
  · exact Or.inl (same'.trans same)
  · exact Or.inr playing

theorem handleCommandSeek_unheld (env : Env) (positionMs : UInt32) :
    Yields (handleCommandSeek p env positionMs) (fun r => Unheld p r.1) fun _ => True := by
  have finished : ∀ q : PlayerInternal Uri D (Recorded S), Unfailed p q →
      Unheld p (q.finishSeek env positionMs).1 := by
    intro q same
    left
    unfold finishSeek
    split
    · exact same
    · split
      all_goals exact same
  have sought : ∀ trackId id track keep,
      Unfailed p (p.seekCurrent trackId id track keep positionMs) := by
    intro trackId id track keep
    unfold seekCurrent
    split
    all_goals rfl
  unfold handleCommandSeek
  split
  · exact handleCommandLoad_unheld p ..
  · exact finished _ (sought ..)
  · exact finished _ (sought ..)
  · exact trivial
  · exact finished p rfl
  · exact finished p rfl

omit [DecidableEq Uri] [Decoder D] in
theorem pollLoader_unheld (env : Env) (poll : LoaderPoll Uri D) :
    Yields (pollLoader p env poll) (Unheld p) fun _ => True := by
  unfold pollLoader
  split
  · split
    · exact Or.inl rfl
    · split
      · refine yields_bind (Unheld p) (startPlayback_unheld p ..) ?_
        intro q unheld
        split
        · exact trivial
        · exact unheld
      · exact Or.inl rfl
      · exact Or.inl rfl
  · exact Or.inl rfl

omit [DecidableEq Uri] [Decoder D] in
theorem handlePacket_unfailed (packet : Option (AudioPacketPosition × AudioPacket)) :
    Yields (handlePacket p packet) (Unfailed p) fun _ => True := by
  unfold handlePacket
  split
  · rename_i packet
    have counted := write_failures p.sink (p.applyVolume packet)
    split
    · rfl
    · split
      · rename_i written
        rw [written] at counted
        exact counted
      · rename_i sink written
        rw [written] at counted
        refine yields_mono (handlePause_unfailed { p with sink := sink }) ?_ fun _ _ => trivial
        exact fun q same => same.trans counted
  · refine yields_bind (Unfailed p) ?_ ?_
    · unfold playingToEndOfTrack
      split
      · rfl
      · trivial
    · intro q same
      split
      · exact same
      · trivial

omit [DecidableEq Uri] [Decoder D] [Sink S] in
theorem reportPosition_unfailed (env : Env) (trackId : Uri) (id : UInt64)
    (track : PlayerLoadedTrackData Uri D) (reported : Option Nat) (suggested : Bool)
    (expectedMs : UInt32) (position : AudioPacketPosition) :
    Unfailed p (p.reportPosition env trackId id track reported suggested expectedMs position) := by
  unfold reportPosition
  generalize same : (if notifyAboutPosition env.now expectedMs.toNat position reported = true then
    _ else p) = q
  have unfailed : Unfailed p q := by
    subst same
    split
    all_goals rfl
  dsimp only
  split
  · split
    all_goals exact unfailed
  · exact unfailed

omit [DecidableEq Uri] in
theorem decodeNext_unfailed (env : Env) (trackId : Uri) (id : UInt64)
    (track : PlayerLoadedTrackData Uri D) (reported : Option Nat) (suggested : Bool) :
    Yields (decodeNext p env trackId id track reported suggested) (Unfailed p) fun _ => True := by
  unfold decodeNext
  dsimp only
  split
  · exact handlePacket_unfailed { p with state := _ } none
  · refine yields_mono (handlePacket_unfailed _ _) ?_ fun _ done => done
    refine fun q same => same.trans ?_
    unfold notePacket
    dsimp only
    split
    · rfl
    · split
      · exact reportPosition_unfailed { p with state := _ } ..
      · rfl
  · rfl

omit [DecidableEq Uri] in
/-- The packet phase does not outlive a start that fails. -/
theorem playPacket_unfailed (env : Env) :
    Yields (playPacket p env) (Unfailed p) fun _ => True := by
  unfold playPacket
  refine yields_bind (fun isPlaying => isPlaying = p.state.isPlaying) ?_ ?_
  · unfold checkPlaying
    split
    · trivial
    · rfl
  · rintro isPlaying rfl
    split
    · rename_i playing
      obtain ⟨q, returned, outcome⟩ := ensureSinkRunning_returns p
      rw [returned]
      rw [yields_ok_bind]
      rcases outcome with ⟨same, -⟩ | paused
      · split
        · exact yields_mono (decodeNext_unfailed q ..) (fun r same' => same'.trans same)
            fun _ done => done
        · trivial
      · cases state : p.state with
        | playing trackId id track reported suggested =>
          rw [state] at paused
          rw [paused]
          trivial
        | _ => rw [state] at playing; cases playing
    · rfl

omit [DecidableEq Uri] [Decoder D] in
theorem handlePlayerStop_unfailed :
    Yields (handlePlayerStop p) (Unfailed p) fun _ => True := by
  have stops : ∀ (trackId : Uri) (id : UInt64), Yields
      (ensureSinkStopped p false >>= fun q =>
        pure { q.sendEvent (.stopped id trackId) with state := .stopped })
      (Unfailed p) fun _ => True := by
    intro trackId id
    refine yields_bind (Unfailed p) ?_ fun q same => same
    exact yields_mono (ensureSinkStopped_unfailed p false) (fun _ same => same) fun _ _ => trivial
  unfold handlePlayerStop
  split
  · exact stops ..
  · exact stops ..
  · exact stops ..
  · exact stops ..
  · rfl
  · trivial

omit [DecidableEq Uri] [Decoder D] [Sink S] in
theorem filterExplicit_unfailed (filter : Bool) : Unfailed p (p.filterExplicit filter) := by
  unfold filterExplicit
  dsimp only
  repeat' split
  all_goals rfl

theorem handleCommand_unheld (env : Env) (cmd : PlayerCommand Uri) (other : cmd ≠ .play) :
    Yields (p.handleCommand env cmd) (fun r => Unheld p r.1) fun _ => True := by
  cases cmd with
  | play => exact absurd rfl other
  | load trackId play positionMs => exact handleCommandLoad_unheld p ..
  | seek positionMs => exact handleCommandSeek_unheld p ..
  | pause =>
    refine yields_bind (Unfailed p) ?_ fun q same => Or.inl same
    exact yields_mono (handlePause_unfailed p) (fun _ same => same) fun _ _ => trivial
  | stop => exact yields_bind (Unfailed p) (handlePlayerStop_unfailed p) fun q same => Or.inl same
  | emitFilterExplicitContentChangedEvent filter => exact Or.inl (filterExplicit_unfailed p filter)
  | _ => exact Or.inl rfl

/-- A failed start in any other step than a `Play` command does not pause the player. -/
theorem phaseStep_unheld (input : Input Uri D) (other : input.phase ≠ .command .play) :
    Yields (phaseStep p input) (Unheld p) fun _ => True := by
  obtain ⟨env, phase⟩ := input
  cases phase with
  | loader poll => exact pollLoader_unheld p env poll
  | preload poll =>
    left
    unfold pollPreload
    dsimp only
    repeat' split
    all_goals rfl
  | packet =>
    exact yields_mono (playPacket_unfailed p env) (fun _ same => Or.inl same) fun _ done => done
  | suggest =>
    left
    unfold suggestPreload
    repeat' split
    all_goals rfl
  | yield =>
    refine yields_bind (fun _ => True) ?_ fun _ _ => Or.inl rfl
    unfold checkPlaying
    split
    all_goals trivial
  | command cmd =>
    refine yields_bind (fun r => Unheld p r.1) ?_ fun r (unheld : Unheld p r.1) => unheld
    exact handleCommand_unheld p env cmd fun play => other (congrArg Phase.command play)

theorem phaseStep_play (env : Env) :
    ∃ q, phaseStep p ⟨env, .command .play⟩ = .ok q ∧ (Unfailed p q ∨ held q.state = true) := by
  obtain ⟨q, returned, outcome⟩ := handlePlay_held p env
  refine ⟨q, ?_, outcome⟩
  simp only [phaseStep, handleCommand, returned]
  rfl

end Phases

section Runs

variable [DecidableEq Uri] [Decoder D] [Sink S]

def StartFails (p : PlayerInternal Uri D (Recorded S)) (input : Input Uri D) : Prop :=
  p.sink.failures < failuresOf (phaseStep p input)

/-- Every step in which a start fails returns, and leaves the player paused. -/
def PausesOnFailure (start : PlayerInternal Uri D (Recorded S)) (inputs : List (Input Uri D)) :
    Prop :=
  Along step
    (fun o input => ∀ p, o = .ok p → StartFails p input →
      ∃ q, phaseStep p input = .ok q ∧ held q.state = true)
    (.ok start) inputs

/-- Every start that fails is that of a `Play` command. -/
def FailsOnPlayOnly (start : PlayerInternal Uri D (Recorded S)) (inputs : List (Input Uri D)) :
    Prop :=
  Along step (fun o input => ∀ p, o = .ok p → StartFails p input → input.phase = .command .play)
    (.ok start) inputs

theorem phaseStep_held_iff {p : PlayerInternal Uri D (Recorded S)} {input : Input Uri D}
    (fails : StartFails p input) :
    (∃ q, phaseStep p input = .ok q ∧ held q.state = true) ↔ input.phase = .command .play := by
  constructor
  · rintro ⟨q, returned, paused⟩
    by_contra other
    have unheld := phaseStep_unheld p input other
    rw [StartFails, returned] at fails
    rw [returned] at unheld
    rcases unheld with same | playing
    · exact absurd same (Nat.ne_of_gt fails)
    · cases state : q.state with
      | playing => rw [state] at paused; cases paused
      | _ => rw [state] at playing; cases playing
  · intro play
    obtain ⟨env, phase⟩ := input
    cases play
    obtain ⟨q, returned, outcome⟩ := phaseStep_play p env
    rw [StartFails, returned] at fails
    refine ⟨q, returned, ?_⟩
    rcases outcome with same | paused
    · exact absurd same (Nat.ne_of_gt fails)
    · exact paused

/-- Failing sinks pause the player in exactly the runs in which they fail on `Play` only. -/
theorem pausesOnFailure_iff (config : PlayerConfig) (sink : S) (now : Nat)
    (inputs : List (Input Uri D)) :
    PausesOnFailure (initial config ⟨sink, 0⟩ now) inputs ↔
      FailsOnPlayOnly (initial config ⟨sink, 0⟩ now) inputs := by
  rw [PausesOnFailure, FailsOnPlayOnly, along_iff, along_iff]
  constructor
  · intro pauses front input back split p hp fails
    exact (phaseStep_held_iff fails).mp (pauses front input back split p hp fails)
  · intro onPlay front input back split p hp fails
    exact (phaseStep_held_iff fails).mpr (onPlay front input back split p hp fails)

end Runs

/-- A sink that cannot be started. -/
structure DeadSink where

instance : Sink DeadSink where
  start s := (.error "no device", s)
  stop s := (.ok (), s)
  write s _ := (.ok (), s)

/-- A new player in passthrough mode with a sink that cannot be started. -/
def silentRadio : PlayerInternal String RadioDecoder (Recorded DeadSink) :=
  initial ⟨true, true, none, id⟩ ⟨⟨⟩, 0⟩ 0

/-- The process has ended in the packet phase. -/
def endedInPacket : Process Uri D S (PlayerInternal Uri D S) → Bool
  | .ok _ => false
  | .error e => e.reason = .pollNotPlaying

/-- The loaded track is playing on a sink that has not started, and its first packet ends
the process. -/
theorem silentRadio_not_paused :
    ¬ PausesOnFailure silentRadio (firstPacket [.ok oneSecond]) ∧
      endedInPacket (run step (.ok silentRadio) (firstPacket [.ok oneSecond])) = true := by
  constructor
  · intro pauses
    obtain ⟨-, loaded, -⟩ := pauses
    obtain ⟨q, returned, paused⟩ := loaded _ rfl (Nat.lt_succ_self 0)
    cases returned
    cases paused
  · decide

end SinkFailures
