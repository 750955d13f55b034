import SqueezeboxConnect.Runs
import SqueezeboxConnect.PlayerLoads

/-!
# Runs of the player

One step of the player is a command or a phase of the poll loop. A step that
is not a load keeps the state valid, announces no request id and does not add
to the ends of track that are still owed. The three guarantees of a run follow:
the state stays valid, the stored request id is the announced one, and a
request ends once.
-/

namespace PlayerRuns

open AudioDecoder PlayerThread PlayerInternal Outcomes Runs PlayerLoads

variable {Uri D S : Type}

/-- The ends of track that may still follow from a state without a load. -/
def owed : PlayerState Uri D → Nat
  | .loading .. => 1
  | .paused .. => 1
  | .playing .. => 1
  | .stopped => 0
  | .endOfTrack .. => 0
  | .invalid => 0

theorem owed_pauseState (state : PlayerState Uri D) : owed (pauseState state) = owed state := by
  cases state <;> rfl

theorem isInvalid_pauseState (state : PlayerState Uri D) :
    (pauseState state).isInvalid = state.isInvalid := by
  cases state <;> rfl

/-- A step that neither ends a track nor announces an id. -/
structure Calm (p q : PlayerInternal Uri D S) : Prop where
  quiet : Adjusts p q.state q
  valid : p.state.isInvalid = false → q.state.isInvalid = false
  owed_le : owed q.state ≤ owed p.state

/-- The process ends quietly, and not because the step has lost the state. -/
structure CalmExit (p : PlayerInternal Uri D S) (e : Exit Uri D S) : Prop where
  quiet : Adjusts p e.player.state e.player
  valid : p.state.isInvalid = false → e.reason = .sinkStop ∨ e.player.state.isInvalid = false

variable {p q : PlayerInternal Uri D S}

theorem calm_of_adjusts {state : PlayerState Uri D} (h : Adjusts p state q)
    (valid : p.state.isInvalid = false → state.isInvalid = false)
    (owed_le : owed state ≤ owed p.state) : Calm p q := by
  obtain rfl := h.state_eq
  exact ⟨h, valid, owed_le⟩

theorem calm_refl (p : PlayerInternal Uri D S) : Calm p p :=
  ⟨adjusts_self p, id, Nat.le_refl _⟩

theorem calm_same (h : Adjusts p p.state q) : Calm p q :=
  calm_of_adjusts h id (Nat.le_refl _)

theorem calm_pause (h : Adjusts p (pauseState p.state) q) : Calm p q :=
  calm_of_adjusts h (fun valid => by rw [isInvalid_pauseState]; exact valid)
    (Nat.le_of_eq (owed_pauseState _))

theorem calm_trans {r : PlayerInternal Uri D S} (h : Calm p q) (h' : Calm q r) : Calm p r :=
  ⟨adjusts_trans h.quiet h'.quiet, fun valid => h'.valid (h.valid valid),
    Nat.le_trans h'.owed_le h.owed_le⟩

theorem calmExit_trans {e : Exit Uri D S} (h : Calm p q) (h' : CalmExit q e) : CalmExit p e :=
  ⟨adjusts_trans h.quiet h'.quiet, fun valid => h'.valid (h.valid valid)⟩

theorem calm_sendEvent (p : PlayerInternal Uri D S) {e : PlayerEvent Uri} (quiet : Quiet e) :
    Calm p (p.sendEvent e) :=
  calm_same (adjusts_sendEvent (adjusts_self p) quiet)

theorem calmExit_of_sinkStop {e : Exit Uri D S} (h : StopsQuietly p e) : CalmExit p e :=
  ⟨h.2, fun _ => Or.inl h.1⟩

theorem started_calm {id : UInt64} (h : Started id q.state ∧ Adjusts p q.state q)
    (owes : owed p.state = 1) : Calm p q := by
  obtain ⟨started, quiet⟩ := h
  cases hq : q.state with
  | playing =>
    exact ⟨quiet, fun _ => by rw [hq]; rfl, by rw [hq, owes]; exact Nat.le_refl _⟩
  | paused =>
    exact ⟨quiet, fun _ => by rw [hq]; rfl, by rw [hq, owes]; exact Nat.le_refl _⟩
  | stopped => rw [hq] at started; exact started.elim
  | loading => rw [hq] at started; exact started.elim
  | endOfTrack => rw [hq] at started; exact started.elim
  | invalid => rw [hq] at started; exact started.elim

section Sinks
variable [Sink S] (p)

theorem ensureSinkStopped_calm (temporarily : Bool) :
    Yields (ensureSinkStopped p temporarily) (Calm p) (CalmExit p) :=
  yields_mono (ensureSinkStopped_spec p temporarily) (fun _ hq => calm_same hq)
    (fun _ he => calmExit_of_sinkStop ⟨he.1, adjusts_same he.2⟩)

theorem handlePause_calm : Yields (handlePause p) (Calm p) (CalmExit p) :=
  yields_mono (handlePause_spec p) (fun _ hq => calm_pause hq)
    (fun _ he => calmExit_of_sinkStop ⟨he.1, adjusts_same he.2⟩)

theorem ensureSinkRunning_calm :
    Yields (ensureSinkRunning p) (Calm p) (CalmExit p) := by
  refine yields_mono (ensureSinkRunning_spec p) ?_ ?_
  · rintro q (hq | hq)
    · exact calm_same (sinkOnly_adjusts hq)
    · exact calm_pause hq
  · exact fun e he => calmExit_of_sinkStop ⟨he.1, adjusts_same he.2⟩

theorem handlePlay_calm (env : Env) :
    Yields (handlePlay p env) (Calm p) (CalmExit p) := by
  unfold handlePlay
  cases hs : p.state with
  | paused trackId id track suggested =>
    simp only [pausedToPlaying, hs, yields_ok_bind]
    let state := PlayerState.playing trackId id track (checkedSub env.now track.streamPositionMs)
      suggested
    have started : Calm p ({ p with state := state }.sendEvent
        (.playing id trackId track.streamPositionMs)) := by
      refine calm_of_adjusts (adjusts_sendEvent (adjusts_state p state) ⟨rfl, rfl⟩) ?_ ?_
      · exact fun _ => rfl
      · rw [hs]; exact Nat.le_refl _
    exact yields_mono (ensureSinkRunning_calm _) (fun q hq => calm_trans started hq)
      (fun e he => calmExit_trans started he)
  | loading trackId id start loader =>
    refine calm_of_adjusts (adjusts_state p (.loading trackId id true loader)) (fun _ => rfl) ?_
    rw [hs]; exact Nat.le_refl _
  | stopped => exact calm_refl p
  | playing => exact calm_refl p
  | endOfTrack => exact calm_refl p
  | invalid => exact calm_refl p

/-- Stopping writes off the end that was owed. -/
theorem stop_calm (id : UInt64) (trackId : Uri) :
    Yields (do
      let p ← ensureSinkStopped p false
      let p := p.sendEvent (.stopped id trackId)
      return { p with state := .stopped }) (Calm p) (CalmExit p) := by
  refine yields_bind (Calm p) (ensureSinkStopped_calm p false) ?_
  intro q hq
  have stopped := adjusts_trans (adjusts_sendEvent hq.quiet (e := .stopped id trackId) ⟨rfl, rfl⟩)
    (adjusts_state _ .stopped)
  exact calm_of_adjusts stopped (fun _ => rfl) (Nat.zero_le _)

theorem handlePlayerStop_calm :
    Yields (handlePlayerStop p) (Calm p) (CalmExit p) := by
  unfold handlePlayerStop
  cases hs : p.state with
  | playing trackId id => exact stop_calm p id trackId
  | paused trackId id => exact stop_calm p id trackId
  | endOfTrack trackId id => exact stop_calm p id trackId
  | loading trackId id => exact stop_calm p id trackId
  | stopped => exact calm_refl p
  | invalid =>
    refine ⟨adjusts_self p, ?_⟩
    intro valid; rw [hs] at valid; cases valid

theorem pollLoader_calm (env : Env) (poll : LoaderPoll Uri D) :
    Yields (pollLoader p env poll) (Calm p) (CalmExit p) := by
  unfold pollLoader
  cases hs : p.state with
  | loading trackId id start loader =>
    have owes : owed p.state = 1 := by rw [hs]; rfl
    by_cases done : loader.terminated = true
    · simp only [if_pos done]; exact calm_refl p
    · simp only [if_neg done]
      cases poll with
      | pending => exact calm_refl p
      | failed =>
        refine calm_of_adjusts (adjusts_sendEvent (adjusts_state p _) ⟨rfl, rfl⟩)
          (fun _ => rfl) ?_
        rw [owes]; exact Nat.le_refl _
      | ready loadedTrack =>
        refine yields_bind (fun q => Started id q.state ∧ Adjusts p q.state q) ?_ ?_
        · exact yields_mono (startPlayback_spec p env trackId id loadedTrack start)
            (fun _ hq => hq) (fun _ he => calmExit_of_sinkStop he)
        · intro q hq
          have calm := started_calm hq owes
          cases hstate : q.state with
          | loading => rw [hstate] at hq; exact hq.1.elim
          | _ => exact calm
  | _ => exact calm_refl p

end Sinks

theorem pollPreload_calm (p : PlayerInternal Uri D S) (poll : LoaderPoll Uri D) :
    Calm p (pollPreload p poll) := by
  unfold pollPreload
  cases hp : p.preload with
  | none => exact calm_refl p
  | ready => exact calm_refl p
  | loading trackId loader =>
    have dropped : Adjusts p p.state { p with preload := .none } := ⟨rfl, [], by simp, by simp⟩
    cases poll with
    | pending => exact calm_refl p
    | ready loadedTrack =>
      refine calm_same ⟨rfl, [.preloading trackId], rfl, ?_⟩
      simp [Quiet, isEnd, announcedId]
    | failed =>
      dsimp only
      split
      · exact calm_same (adjusts_sendEvent dropped ⟨rfl, rfl⟩)
      · exact calm_same (adjusts_sendEvent dropped ⟨rfl, rfl⟩)
      · exact calm_same dropped

theorem suggestPreload_calm (p : PlayerInternal Uri D S) (env : Env) :
    Calm p (suggestPreload p env) := by
  unfold suggestPreload
  cases hs : p.state with
  | playing trackId id track reported suggested =>
    by_cases near : (!suggested && nearEnd env track) = true
    · simp only [if_pos near]
      refine calm_of_adjusts (adjusts_sendEvent (adjusts_state p _) ⟨rfl, rfl⟩) (fun _ => rfl) ?_
      rw [hs]; exact Nat.le_refl _
    · simp only [if_neg near]; exact calm_refl p
  | paused trackId id track suggested =>
    by_cases near : (!suggested && nearEnd env track) = true
    · simp only [if_pos near]
      refine calm_of_adjusts (adjusts_sendEvent (adjusts_state p _) ⟨rfl, rfl⟩) (fun _ => rfl) ?_
      rw [hs]; exact Nat.le_refl _
    · simp only [if_neg near]; exact calm_refl p
  | _ => exact calm_refl p

theorem calm_keep {state : PlayerState Uri D} (owes : owed p.state = owed state)
    (valid : state.isInvalid = false) : Calm p { p with state := state } :=
  calm_of_adjusts (adjusts_state p state) (fun _ => valid) (Nat.le_of_eq owes.symm)

theorem finishSeek_calm (p : PlayerInternal Uri D S) (env : Env) (positionMs : UInt32) :
    Calm p (finishSeek p env positionMs).1 := by
  unfold finishSeek
  cases p.preloadDataBeforePlayback env with
  | error e => exact calm_refl p
  | ok _ =>
    cases hs : p.state with
    | playing => exact calm_keep (by rw [hs]; rfl) rfl
    | _ => exact calm_refl p

theorem seekCurrent_calm [Decoder D] (trackId : Uri) (id : UInt64)
    (track : PlayerLoadedTrackData Uri D)
    {keep : PlayerLoadedTrackData Uri D → PlayerState Uri D} (positionMs : UInt32)
    (owes : ∀ track, owed p.state = owed (keep track))
    (valid : ∀ track, (keep track).isInvalid = false) :
    Calm p (seekCurrent p trackId id track keep positionMs) := by
  unfold seekCurrent
  split
  · exact calm_trans (calm_keep (owes _) (valid _)) (calm_sendEvent _ ⟨rfl, rfl⟩)
  · exact calm_keep (owes _) (valid _)

section Commands
variable [DecidableEq Uri]

theorem handleCommandPreload_calm (p : PlayerInternal Uri D S) (trackId : Uri) :
    Calm p (handleCommandPreload p trackId) :=
  calm_same ⟨rfl, [], (List.append_nil _).symm, by simp⟩

variable [Decoder D] [Sink S]

/-- A seek that is not a load in disguise. -/
theorem handleCommandSeek_calm (p : PlayerInternal Uri D S) (env : Env) (positionMs : UInt32)
    (notLoading : ∀ trackId id start loader, p.state ≠ .loading trackId id start loader) :
    Yields (handleCommandSeek p env positionMs) (fun r => Calm p r.1) (CalmExit p) := by
  unfold handleCommandSeek
  cases hs : p.state with
  | loading trackId id start loader => exact absurd hs (notLoading trackId id start loader)
  | playing trackId id track reported suggested =>
    refine calm_trans (seekCurrent_calm trackId id track positionMs ?_ ?_) (finishSeek_calm _ _ _)
    · intro track; rw [hs]; rfl
    · intro track; rfl
  | paused trackId id track suggested =>
    refine calm_trans (seekCurrent_calm trackId id track positionMs ?_ ?_) (finishSeek_calm _ _ _)
    · intro track; rw [hs]; rfl
    · intro track; rfl
  | invalid =>
    refine ⟨adjusts_self p, ?_⟩
    intro valid; rw [hs] at valid; cases valid
  | stopped => exact finishSeek_calm p env positionMs
  | endOfTrack => exact finishSeek_calm p env positionMs

end Commands

def ends (es : List (PlayerEvent Uri)) : Nat := es.countP isEnd

theorem ends_append (es es' : List (PlayerEvent Uri)) : ends (es ++ es') = ends es + ends es' :=
  List.countP_append

theorem ends_quiet {es : List (PlayerEvent Uri)} (quiet : ∀ e ∈ es, Quiet e) : ends es = 0 := by
  refine List.countP_eq_zero.mpr ?_
  intro e hmem
  simp [(quiet e hmem).1]

/-- The ends among the added events, and those still owed, were owed before. -/
def Spends (p : PlayerInternal Uri D S) (events : List (PlayerEvent Uri)) (left : Nat) : Prop :=
  ∃ es, events = p.events ++ es ∧ ends es + left ≤ owed p.state

/-- What holds of every step that is not a load. A stray end is one that is
sent while the player goes on with its track. -/
structure Steps (stray : Bool) (p q : PlayerInternal Uri D S) : Prop where
  valid : p.state.isInvalid = false → q.state.isInvalid = false
  spends : stray = false → Spends p q.events (owed q.state)

structure Stops (stray : Bool) (p : PlayerInternal Uri D S) (e : Exit Uri D S) : Prop where
  valid : p.state.isInvalid = false → e.reason = .sinkStop ∨ e.player.state.isInvalid = false
  spends : stray = false → Spends p e.player.events 0

theorem calm_steps (stray : Bool) (h : Calm p q) : Steps stray p q := by
  refine ⟨h.valid, fun _ => ?_⟩
  obtain ⟨es, he, quiet⟩ := h.quiet.events_eq
  refine ⟨es, he, ?_⟩
  rw [ends_quiet quiet, Nat.zero_add]
  exact h.owed_le

theorem calmExit_stops {e : Exit Uri D S} (stray : Bool) (h : CalmExit p e) : Stops stray p e := by
  refine ⟨h.valid, fun _ => ?_⟩
  obtain ⟨es, he, quiet⟩ := h.quiet.events_eq
  refine ⟨es, he, ?_⟩
  rw [ends_quiet quiet]
  exact Nat.zero_le _

/-- Calm steps may come first. -/
theorem spends_after_calm {events : List (PlayerEvent Uri)} {left : Nat} (h : Calm p q)
    (h' : Spends q events left) : Spends p events left := by
  obtain ⟨es, he, quiet⟩ := h.quiet.events_eq
  obtain ⟨es', he', paid⟩ := h'
  refine ⟨es ++ es', by rw [he', he, List.append_assoc], ?_⟩
  rw [ends_append, ends_quiet quiet]
  have := h.owed_le
  omega

theorem steps_after_calm {stray : Bool} {r : PlayerInternal Uri D S} (h : Calm p q)
    (h' : Steps stray q r) : Steps stray p r :=
  ⟨fun valid => h'.valid (h.valid valid), fun hstray => spends_after_calm h (h'.spends hstray)⟩

theorem stops_after_calm {stray : Bool} {e : Exit Uri D S} (h : Calm p q) (h' : Stops stray q e) :
    Stops stray p e :=
  ⟨fun valid => h'.valid (h.valid valid), fun hstray => spends_after_calm h (h'.spends hstray)⟩

theorem reportProgress_calm (h : Calm p q) (env : Env) (trackId : Uri) (id : UInt64)
    (positionMs : UInt32) :
    Calm p (match q.config.positionUpdateInterval with
      | some interval =>
        if env.now - q.lastProgressUpdate > interval then
          { q with lastProgressUpdate := env.now }.sendEvent
            (.positionChanged id trackId positionMs)
        else q
      | none => q) := by
  have progress : Calm q ({ q with lastProgressUpdate := env.now }.sendEvent
      (.positionChanged id trackId positionMs)) := by
    refine calm_same ⟨rfl, [.positionChanged id trackId positionMs], rfl, ?_⟩
    simp [Quiet, isEnd, announcedId]
  split
  · split
    · exact calm_trans h progress
    · exact h
  · exact h

theorem reportPosition_calm (p : PlayerInternal Uri D S) (env : Env) (trackId : Uri) (id : UInt64)
    (track : PlayerLoadedTrackData Uri D) (reported : Option Nat) (suggested : Bool)
    (expectedMs : UInt32) (position : AudioPacketPosition) (owes : owed p.state = 1) :
    Calm p (reportPosition p env trackId id track reported suggested expectedMs position) := by
  refine reportProgress_calm ?_ env trackId id position.positionMs
  split
  · refine calm_trans (calm_keep ?_ rfl) (calm_sendEvent _ ⟨rfl, rfl⟩)
    exact owes
  · exact calm_refl p

theorem notePacket_spec (p : PlayerInternal Uri D S) (env : Env) (trackId : Uri) (id : UInt64)
    (track : PlayerLoadedTrackData Uri D) (reported : Option Nat) (suggested : Bool)
    (position : AudioPacketPosition) (packet : AudioPacket) (owes : owed p.state = 1)
    (valid : p.state.isInvalid = false) :
    let q := notePacket p env trackId id track reported suggested position packet
    q.state.isInvalid = false ∧
      ((!p.config.passthrough && !packet.hasSamples) = false → Calm p q) := by
  let track' := { track with streamPositionMs := position.positionMs }
  have noted : Calm p { p with state := .playing trackId id track' reported suggested } :=
    calm_keep owes rfl
  unfold notePacket
  by_cases passthrough : p.config.passthrough = true
  · simp only [if_pos passthrough]
    exact ⟨rfl, fun _ => noted⟩
  · simp only [if_neg passthrough]
    by_cases samples : packet.hasSamples = true
    · simp only [if_pos samples]
      have calm := calm_trans noted (reportPosition_calm _ env trackId id track' reported
        suggested track.streamPositionMs position rfl)
      exact ⟨calm.valid valid, fun _ => calm⟩
    · simp only [if_neg samples]
      refine ⟨rfl, ?_⟩
      intro h; simp [passthrough, samples] at h

/-- The filter is switched on while an explicit track is playing or paused. -/
def strayFilter (p : PlayerInternal Uri D S) (filter : Bool) : Bool :=
  match p.state with
  | .playing _ _ track _ _ => filter && track.isExplicit
  | .paused _ _ track _ => filter && track.isExplicit
  | _ => false

theorem filterExplicit_spec (p : PlayerInternal Uri D S) (filter : Bool) :
    Steps (strayFilter p filter) p (filterExplicit p filter) := by
  have changed : Calm p (p.sendEvent (.filterExplicitContentChanged filter)) :=
    calm_sendEvent p ⟨rfl, rfl⟩
  have kept : (filterExplicit p filter).state = p.state := by
    simp only [filterExplicit, sendEvent]
    split
    · split <;> rfl
    · split <;> rfl
    · rfl
  refine ⟨fun valid => by rw [kept]; exact valid, ?_⟩
  intro hstray
  have same : filterExplicit p filter = p.sendEvent (.filterExplicitContentChanged filter) := by
    simp only [strayFilter] at hstray
    simp only [filterExplicit]
    cases hs : p.state with
    | playing => simp only [hs] at hstray; simp [sendEvent, hs, hstray]
    | paused => simp only [hs] at hstray; simp [sendEvent, hs, hstray]
    | _ => simp [sendEvent, hs]
  rw [same]
  exact (calm_steps false changed).spends rfl

theorem owed_le_one (state : PlayerState Uri D) : owed state ≤ 1 := by
  cases state <;> simp [owed]

theorem valid_of_playRequestId {state : PlayerState Uri D} {id : UInt64}
    (h : state.playRequestId = some id) : state.isInvalid = false := by
  cases state with
  | invalid => cases h
  | _ => rfl

theorem ends_announced (id : UInt64) {es : List (PlayerEvent Uri)} (quiet : ∀ e ∈ es, Quiet e) :
    ends (.playRequestIdChanged id :: es) = 0 := by
  have rest := ends_quiet quiet
  simpa [ends, isEnd] using rest

theorem yields_returned {x : Process Uri D S (PlayerInternal Uri D S)} {stray : Bool}
    (h : Yields x (Calm p) (CalmExit p)) :
    Yields ((x >>= fun q => pure (q, (.ok () : PlayerResult))) >>= fun r => pure r.1)
      (Steps stray p) (Stops stray p) := by
  cases x with
  | ok q => exact calm_steps stray h
  | error e => exact calmExit_stops stray h

section Packets
variable [DecidableEq Uri] [Decoder D] [Sink S]

/-- The answers of the decoder to which the loop sends an end of track without
leaving `Playing`: an error, and raw data outside passthrough mode. -/
def strayPacket (config : PlayerConfig) (track : PlayerLoadedTrackData Uri D) : Bool :=
  match (Decoder.nextPacket track.decoder).1 with
  | .ok none => false
  | .ok (some (_, packet)) => !config.passthrough && !packet.hasSamples
  | .error _ => true

omit [DecidableEq Uri] [Decoder D] in
theorem handlePacket_some (p : PlayerInternal Uri D S) (position : AudioPacketPosition)
    (packet : AudioPacket) :
    Yields (handlePacket p (some (position, packet))) (Calm p) (CalmExit p) := by
  simp only [handlePacket]
  split
  · exact calm_refl p
  · split
    · exact calm_same ⟨rfl, [], by simp, by simp⟩
    · have sink : ∀ sink, Calm p { p with sink := sink } :=
        fun sink => calm_same ⟨rfl, [], by simp, by simp⟩
      exact yields_mono (handlePause_calm _) (fun q hq => calm_trans (sink _) hq)
        (fun e he => calmExit_trans (sink _) he)

omit [DecidableEq Uri] in
theorem decodeNext_spec (env : Env) {trackId : Uri} {id : UInt64}
    {track : PlayerLoadedTrackData Uri D} {reported : Option Nat} {suggested : Bool}
    (playing : p.state = .playing trackId id track reported suggested) :
    Yields (decodeNext p env trackId id track reported suggested)
      (Steps (strayPacket p.config track) p) (Stops (strayPacket p.config track) p) := by
  have owes : owed p.state = 1 := by rw [playing]; rfl
  unfold decodeNext strayPacket
  rcases hnext : Decoder.nextPacket track.decoder with ⟨_ | _ | ⟨position, packet⟩, decoder⟩
  · -- the error of the decoder
    refine ⟨fun _ => rfl, ?_⟩
    intro h; cases h
  · -- the track is over, and the state says so
    refine ⟨fun _ => rfl, fun _ => ?_⟩
    refine ⟨[.endOfTrack id trackId], rfl, ?_⟩
    rw [owes]
    exact Nat.le_refl _
  · dsimp only
    let track' := { track with decoder := decoder }
    have kept : Calm p { p with state := .playing trackId id track' reported suggested } :=
      calm_keep owes rfl
    have noted := notePacket_spec { p with state := .playing trackId id track' reported suggested }
      env trackId id track' reported suggested position packet rfl rfl
    refine yields_mono (handlePacket_some _ position packet) ?_ ?_
    · intro q hq
      refine ⟨fun _ => hq.valid noted.1, fun hstray => ?_⟩
      have calm := calm_trans (calm_trans kept (noted.2 hstray)) hq
      exact (calm_steps false calm).spends rfl
    · intro e he
      refine ⟨fun _ => he.valid noted.1, fun hstray => ?_⟩
      have calm := calmExit_trans (calm_trans kept (noted.2 hstray)) he
      exact (calmExit_stops false calm).spends rfl

/-- The answers that count when the player is playing. -/
def strayPlayback (p : PlayerInternal Uri D S) : Bool :=
  match p.state with
  | .playing _ _ track _ _ => strayPacket p.config track
  | _ => false

omit [DecidableEq Uri] in
theorem playPacket_spec (p : PlayerInternal Uri D S) (env : Env) :
    Yields (playPacket p env) (Steps (strayPlayback p) p) (Stops (strayPlayback p) p) := by
  simp only [playPacket, checkPlaying, strayPlayback]
  cases hs : p.state with
  | playing trackId id track reported suggested =>
    refine yields_bind (fun q => SinkOnly p q ∨ Adjusts p (pauseState p.state) q) ?_ ?_
    · exact yields_mono (ensureSinkRunning_spec p) (fun _ hq => hq)
        (fun e he => calmExit_stops _ (calmExit_of_sinkStop ⟨he.1, adjusts_same he.2⟩))
    · rintro q (hq | hq)
      · have calm := calm_same (sinkOnly_adjusts hq)
        have playing := (sinkOnly_adjusts hq).state_eq.trans hs
        have config : q.config = p.config := by obtain ⟨sink, status, rfl⟩ := hq; rfl
        simp only [playing, ← config]
        exact yields_mono (decodeNext_spec env playing) (fun r hr => steps_after_calm calm hr)
          (fun e he => stops_after_calm calm he)
      · -- the sink did not start: the player is paused, and the process ends
        have paused := hq.state_eq
        rw [hs] at paused
        simp only [paused, pauseState]
        refine calmExit_stops _ ⟨adjusts_same hq, fun _ => Or.inr ?_⟩
        rw [paused]; rfl
  | invalid =>
    refine calmExit_stops _ ⟨adjusts_self p, ?_⟩
    intro valid; rw [hs] at valid; cases valid
  | _ => exact calm_steps _ (calm_refl p)

omit [Sink S] in
/-- A load keeps a valid state unless it loses the track that just ended. -/
theorem loaded_valid {trackId : Uri} {option : Option UInt64} {positionMs : UInt32}
    (h : LoadedFrom p trackId option positionMs q)
    (noReload : reloadFails p trackId positionMs = false) (valid : p.state.isInvalid = false) :
    q.state.isInvalid = false := by
  by_cases reuse : reuseFails p trackId positionMs = true
  · exact (h.reuse reuse).2
  · exact valid_of_playRequestId (h.fresh noReload (Bool.eq_false_iff.mpr reuse) valid)

/-- A seek in the loading state loads the track again under the same id. -/
theorem handleCommandSeek_loading (env : Env) (positionMs : UInt32) {trackId : Uri} {id : UInt64}
    {start : Bool} {loader : Loader Uri} (hs : p.state = .loading trackId id start loader) :
    Yields (handleCommandSeek p env positionMs) (fun r => Steps false p r.1) (Stops false p) := by
  have owes : owed p.state = 1 := by rw [hs]; rfl
  simp only [handleCommandSeek, hs]
  refine yields_mono (handleCommandLoad_spec p env trackId (some id) start positionMs) ?_ ?_
  · intro r hr
    refine ⟨fun valid => loaded_valid hr (by simp [reloadFails, hs]) valid, fun _ => ?_⟩
    obtain ⟨es, he, quiet⟩ := hr.events_eq
    refine ⟨_, he, ?_⟩
    rw [ends_announced _ quiet, owes, Nat.zero_add]
    exact owed_le_one _
  · rintro e ⟨reason, es, he, quiet⟩
    refine ⟨fun _ => Or.inl reason, fun _ => ⟨_, he, ?_⟩⟩
    rw [ends_announced _ quiet]
    exact Nat.zero_le _

/-- The step sends an end of track and stays with its track. -/
def strayEnd (p : PlayerInternal Uri D S) (input : Input Uri D) : Bool :=
  match input.phase with
  | .packet => strayPlayback p
  | .command (.emitFilterExplicitContentChangedEvent filter) => strayFilter p filter
  | _ => false

def isLoad (input : Input Uri D) : Bool :=
  match input.phase with
  | .command (.load ..) => true
  | _ => false

theorem phaseStep_spec (p : PlayerInternal Uri D S) (input : Input Uri D)
    (notLoad : isLoad input = false) :
    Yields (phaseStep p input) (Steps (strayEnd p input) p) (Stops (strayEnd p input) p) := by
  obtain ⟨env, phase⟩ := input
  cases phase with
  | loader poll =>
    exact yields_mono (pollLoader_calm p env poll) (fun _ hq => calm_steps _ hq)
      (fun _ he => calmExit_stops _ he)
  | preload poll => exact calm_steps _ (pollPreload_calm p poll)
  | packet => exact playPacket_spec p env
  | suggest => exact calm_steps _ (suggestPreload_calm p env)
  | yield =>
    simp only [phaseStep, checkPlaying]
    split
    · rename_i invalid
      refine calmExit_stops _ ⟨adjusts_self p, ?_⟩
      intro valid; rw [invalid] at valid; cases valid
    · exact calm_steps _ (calm_refl p)
  | command cmd =>
    cases cmd with
    | load trackId play positionMs => cases notLoad
    | seek positionMs =>
      refine yields_bind (fun r => Steps false p r.1) ?_ (fun r (hr : Steps false p r.1) => hr)
      by_cases loading : ∃ trackId id start loader, p.state = .loading trackId id start loader
      · obtain ⟨trackId, id, start, loader, hs⟩ := loading
        exact handleCommandSeek_loading env positionMs hs
      · refine yields_mono (handleCommandSeek_calm p env positionMs ?_)
          (fun _ hr => calm_steps _ hr) (fun _ he => calmExit_stops _ he)
        exact fun trackId id start loader hs => loading ⟨trackId, id, start, loader, hs⟩
    | play => exact yields_returned (handlePlay_calm p env)
    | pause => exact yields_returned (handlePause_calm p)
    | stop => exact yields_returned (handlePlayerStop_calm p)
    | preload trackId => exact calm_steps _ (handleCommandPreload_calm p trackId)
    | emitFilterExplicitContentChangedEvent filter => exact filterExplicit_spec p filter
    | setSession => exact calm_steps _ (calm_refl p)
    | addEventSender => exact calm_steps _ (calm_refl p)
    | setSinkEventCallback => exact calm_steps _ (calm_refl p)
    | setAutoNormaliseAsAlbum setting =>
      exact calm_steps _ (calm_same ⟨rfl, [], by simp, by simp⟩)
    | _ => exact calm_steps _ (calm_sendEvent p ⟨rfl, rfl⟩)

end Packets

end PlayerRuns
