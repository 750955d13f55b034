import SqueezeboxConnect.PlayerGuarantees

/-!
# Seeks that the decoder refuses

A seek on the current track asks its decoder and goes on whatever the answer
is: the data before the play position is fetched, and a playing track takes the
requested position as its nominal start. Only the stream position and the
`Seeked` event depend on the answer. While a track is loading the command is a
new load, and the decoder it may ask is the one of the preloaded track.
-/

namespace FailedSeeks

open AudioDecoder PlayerThread PlayerInternal Outcomes PlayerLoads PlayerGuarantees

variable {Uri D S : Type}

def isSeeked : PlayerEvent Uri → Bool
  | .seeked .. => true
  | _ => false

/-- The track is playing, its data can be fetched, and its nominal start is not
the one that the requested position gives. -/
def rebases (p : PlayerInternal Uri D S) (env : Env) (positionMs : UInt32) : Bool :=
  match p.state with
  | .playing _ _ track reported _ =>
    (!track.streamLoaderController.shared || env.fetchNextAndWait) &&
      decide (reported ≠ checkedSub env.now positionMs)
  | _ => false

/-- The nominal start that the command leaves with a playing track. -/
def nominalStart (controller : StreamLoaderController) (env : Env) (reported : Option Nat)
    (positionMs : UInt32) : Option Nat :=
  if controller.shared && !env.fetchNextAndWait then reported
  else checkedSub env.now positionMs

variable {p : PlayerInternal Uri D S} {track : PlayerLoadedTrackData Uri D}

theorem nominalStart_eq_iff {trackId : Uri} {playRequestId : UInt64} {reported : Option Nat}
    {suggested : Bool} (playing : p.state = .playing trackId playRequestId track reported suggested)
    (env : Env) (positionMs : UInt32) :
    nominalStart track.streamLoaderController env reported positionMs = reported ↔
      rebases p env positionMs = false := by
  simp only [rebases, playing, nominalStart, Bool.and_eq_false_iff, decide_eq_false_iff_not,
    ne_eq, not_not]
  by_cases lost : (track.streamLoaderController.shared && !env.fetchNextAndWait) = true
  · rw [if_pos lost]
    have unfetched : (!track.streamLoaderController.shared || env.fetchNextAndWait) = false := by
      simpa using lost
    exact ⟨fun _ => .inl unfetched, fun _ => rfl⟩
  · rw [if_neg lost]
    have fetched : (!track.streamLoaderController.shared || env.fetchNextAndWait) ≠ false := by
      simpa using lost
    exact ⟨fun h => .inr h.symm, fun h => (h.resolve_left fetched).symm⟩

/-- The second half of the command on a playing track sends nothing. -/
theorem finishSeek_playing (p : PlayerInternal Uri D S) (env : Env) (positionMs : UInt32)
    (trackId : Uri) (playRequestId : UInt64) (track : PlayerLoadedTrackData Uri D)
    (reported : Option Nat) (suggested : Bool) :
    ∃ result,
      finishSeek { p with state := .playing trackId playRequestId track reported suggested } env
          positionMs =
        ({ p with
            state := .playing trackId playRequestId track
              (nominalStart track.streamLoaderController env reported positionMs) suggested },
          result) := by
  unfold nominalStart finishSeek preloadDataBeforePlayback
  by_cases lost : (track.streamLoaderController.shared && !env.fetchNextAndWait) = true
  · exact ⟨.error .fetch, by simp only [if_pos lost]⟩
  · exact ⟨.ok (), by simp only [if_neg lost]⟩

section Commands
variable [Decoder D]

def seekTrack (track : PlayerLoadedTrackData Uri D) (positionMs : UInt32) :
    PlayerLoadedTrackData Uri D :=
  { track with decoder := (Decoder.seek track.decoder positionMs).2 }

/-- The state with its decoder as the seek leaves it. -/
def seekDecoder (state : PlayerState Uri D) (positionMs : UInt32) : PlayerState Uri D :=
  match state with
  | .playing trackId playRequestId track reported suggested =>
    .playing trackId playRequestId (seekTrack track positionMs) reported suggested
  | .paused trackId playRequestId track suggested =>
    .paused trackId playRequestId (seekTrack track positionMs) suggested
  | state => state

variable {positionMs : UInt32}

theorem seekCurrent_failed (p : PlayerInternal Uri D S) (trackId : Uri) (playRequestId : UInt64)
    (keep : PlayerLoadedTrackData Uri D → PlayerState Uri D)
    (failed : (Decoder.seek track.decoder positionMs).1.isOk = false) :
    p.seekCurrent trackId playRequestId track keep positionMs =
      { p with state := keep (seekTrack track positionMs) } := by
  unfold seekCurrent seekTrack
  rcases hs : Decoder.seek track.decoder positionMs with ⟨_ | _, decoder⟩
  · rfl
  · rw [hs] at failed
    cases failed

variable [DecidableEq Uri] [Sink S]

/-- The command asks a decoder for the position and gets an error. -/
def seekFailed (p : PlayerInternal Uri D S) (positionMs : UInt32) : Bool :=
  match p.state with
  | .playing _ _ track _ _ | .paused _ _ track _ =>
    !(Decoder.seek track.decoder positionMs).1.isOk
  | .loading trackId _ _ _ => reachesLoad p && preloadFails p trackId positionMs
  | _ => false

/-- The command returns, has sent no `Seeked`, and leaves the state it found. -/
def Invisible (p : PlayerInternal Uri D S) (env : Env) (positionMs : UInt32) : Prop :=
  ∃ q result, handleCommandSeek p env positionMs = .ok (q, result) ∧ q.state = p.state ∧
    ∃ es, q.events = p.events ++ es ∧ ∀ e ∈ es, isSeeked e = false

theorem invisible_iff_of_returned {q : PlayerInternal Uri D S} {env : Env} {result : PlayerResult}
    {es : List (PlayerEvent Uri)} (returned : handleCommandSeek p env positionMs = .ok (q, result))
    (events : q.events = p.events ++ es) (silent : ∀ e ∈ es, isSeeked e = false) :
    Invisible p env positionMs ↔ q.state = p.state := by
  constructor
  · rintro ⟨q', result', returned', same, -⟩
    cases returned.symm.trans returned'
    exact same
  · exact fun same => ⟨q, result, returned, same, es, events, silent⟩

/-- A load that fails on the preloaded track keeps the state of the player; the
preload is gone, and the request id has been announced again. -/
theorem handleCommandLoad_preloadFails (env : Env) {trackId : Uri} {id : UInt64}
    {startPlayback : Bool} {loader : Loader Uri} (playRequestId : UInt64) (play : Bool)
    (isLoading : p.state = .loading trackId id startPlayback loader)
    (reaches : reachesLoad p = true) (fails : preloadFails p trackId positionMs = true) :
    ∃ q result,
      handleCommandLoad p env trackId (some playRequestId) play positionMs = .ok (q, result) ∧
        q.state = p.state ∧ q.events = p.events ++ [.playRequestIdChanged playRequestId] := by
  obtain ⟨q, hq, frame⟩ := stopBeforeLoad_reached (p.announce (some playRequestId)) play reaches
  obtain ⟨state, events, fails'⟩ : q.state = p.state ∧
      q.events = p.events ++ [.playRequestIdChanged playRequestId] ∧
      preloadFails q trackId positionMs = true := by
    obtain ⟨sink, status, rfl⟩ := frame
    exact ⟨rfl, rfl, fails⟩
  obtain ⟨e, he⟩ := loadFromPreload_fails q env trackId playRequestId play positionMs fails'
  refine ⟨{ q with preload := .none }, .error (.aborted e), ?_, state, events⟩
  have loads : loadTrack q env trackId playRequestId play positionMs =
      loadFromPreload q env trackId playRequestId play positionMs := by
    simp only [loadTrack, state, isLoading]
  rw [handleCommandLoad, hq]
  exact loads.trans he

/-- A refused seek stays invisible when the decoder is left as it was and the
nominal start of a playing track is not moved. -/
theorem failedSeek_invisible_iff (p : PlayerInternal Uri D S) (env : Env) (positionMs : UInt32)
    (failed : seekFailed p positionMs = true) :
    Invisible p env positionMs ↔
      seekDecoder p.state positionMs = p.state ∧ rebases p env positionMs = false := by
  unfold seekFailed at failed
  cases hs : p.state with
  | playing trackId playRequestId track reported suggested =>
    have refused : (Decoder.seek track.decoder positionMs).1.isOk = false := by
      simpa [hs] using failed
    obtain ⟨result, finished⟩ := finishSeek_playing p env positionMs trackId playRequestId
      (seekTrack track positionMs) reported suggested
    have returned : handleCommandSeek p env positionMs = .ok ({ p with
        state := .playing trackId playRequestId (seekTrack track positionMs)
          (nominalStart track.streamLoaderController env reported positionMs) suggested },
        result) := by
      simp only [handleCommandSeek, hs]
      rw [seekCurrent_failed p trackId playRequestId _ refused]
      exact congrArg Except.ok finished
    rw [invisible_iff_of_returned returned (List.append_nil _).symm (by simp), hs,
      ← nominalStart_eq_iff hs]
    simp only [seekDecoder, PlayerState.playing.injEq, true_and, and_true]
  | paused trackId playRequestId track suggested =>
    have refused : (Decoder.seek track.decoder positionMs).1.isOk = false := by
      simpa [hs] using failed
    have returned : handleCommandSeek p env positionMs = .ok ({ p with
        state := .paused trackId playRequestId (seekTrack track positionMs) suggested },
        .ok ()) := by
      simp only [handleCommandSeek, hs]
      rw [seekCurrent_failed p trackId playRequestId _ refused]
      rfl
    have moved : rebases p env positionMs = false := by simp only [rebases, hs]
    rw [invisible_iff_of_returned returned (List.append_nil _).symm (by simp), hs]
    exact ⟨fun same => ⟨same, moved⟩, fun h => h.1⟩
  | «loading» trackId playRequestId startPlayback loader =>
    obtain ⟨reaches, fails⟩ : reachesLoad p = true ∧ preloadFails p trackId positionMs = true := by
      simpa [hs] using failed
    obtain ⟨q, result, returned, same, events⟩ := handleCommandLoad_preloadFails env playRequestId
      startPlayback hs reaches fails
    have seeks : handleCommandSeek p env positionMs = .ok (q, result) := by
      simp only [handleCommandSeek, hs]
      exact returned
    rw [invisible_iff_of_returned seeks events (by simp [isSeeked])]
    exact ⟨fun _ => ⟨rfl, by simp only [rebases, hs]⟩, fun _ => same⟩
  | stopped => simp [hs] at failed
  | endOfTrack => simp [hs] at failed
  | invalid => simp [hs] at failed

end Commands

section Radio

/-- The streaming-only decoder answers a seek without touching anything, so on
the radio only the nominal start can move. -/
theorem seekDecoder_passthrough {W : Type} [OggBackend W]
    (state : PlayerState Uri (PassthroughDecoder W)) (positionMs : UInt32) :
    seekDecoder state positionMs = state := by
  have untouched (d : PassthroughDecoder W) : (Decoder.seek d positionMs).2 = d := by
    simp only [Decoder.seek, PassthroughDecoder.seek]
    split <;> rfl
  cases state with
  | playing => simp only [seekDecoder, seekTrack, untouched]
  | paused => simp only [seekDecoder, seekTrack, untouched]
  | stopped => rfl
  | «loading» => rfl
  | endOfTrack => rfl
  | invalid => rfl

/-- A track that has sent its headers. -/
def startedTrack : PlayerLoadedTrackData String RadioDecoder :=
  { loadedTrack [] with decoder := { (loadedTrack []).decoder with bos := true } }

/-- The track has been playing since time zero. -/
def playingRadio : PlayerInternal String RadioDecoder PipeSink :=
  { radio with state := .playing "spotify:track:a" 0 startedTrack (some 0) false }

def pausedRadio : PlayerInternal String RadioDecoder PipeSink :=
  { radio with state := .paused "spotify:track:a" 0 startedTrack false }

theorem pausedRadio_invisible :
    seekFailed pausedRadio 0 = true ∧ Invisible pausedRadio ⟨10000, true, true⟩ 0 :=
  ⟨rfl, (failedSeek_invisible_iff pausedRadio _ 0 rfl).mpr ⟨seekDecoder_passthrough _ 0, rfl⟩⟩

/-- Ten seconds into the track, a refused seek back to its beginning moves the
nominal start by those ten seconds. -/
theorem playingRadio_notInvisible :
    seekFailed playingRadio 0 = true ∧ ¬ Invisible playingRadio ⟨10000, true, true⟩ 0 := by
  refine ⟨rfl, ?_⟩
  rintro ⟨q, result, returned, same, -⟩
  cases returned
  injection same with _ _ _ start _
  revert start
  decide

end Radio

end FailedSeeks
