import SqueezeboxConnect.FailedCommands

/-!
# The subtraction when playback is repositioned

A reset to a position takes the previous tracks by the difference between the
length of the context and the position. The position is checked when the current
track is set; a queued track stays the current one and is not set. Switching
shuffle off resets to the position the current track carries, which a queued track
has got with the metadata it was queued with.
-/

namespace Repositioning

open Connect ConnectState ContextWindow ConnectDeck ContextRuns ResetWindow FailedCommands Runs

/-- The operands once the current track has been set. -/
def operands (newIndex : Nat) : Reply Unit → Option (Nat × Nat)
  | (_, .error _) => none
  | (s, .ok _) =>
    if newIndex = 0 then none
    else (s.getContext s.activeContext).toOption.map fun ctx => (ctx.tracks.vec.length, newIndex)

/-- The operands of `context.tracks.len() - new_index`, if a reset comes to it. -/
def subtraction (s : ConnectState) (newIndex : Option Nat) : Option (Nat × Nat) :=
  operands (newIndex.getD 0) (toPosition s (newIndex.getD 0))

inductive Op where
  | addToQueue (track : ProvidedTrack)
  | handleSetQueue (setQueue : SetQueueCommand)
  | updateContext (context : Context) (ty : ContextType) (uuid : Nat → Nat → String)
  | fillContextFromPage (page : ContextPage) (uuid : Nat → String)
  | mergeContext (newPage : Option ContextPage)
  | resetContext (resetAs : ResetContext)
  | nextTrack
  | handleShuffle (enabled : Bool) (newSeed : Nat)

def apply (smallRng : Nat → Rng) (s : ConnectState) : Op → ConnectState
  | .addToQueue track => s.addToQueue track
  | .handleSetQueue setQueue => s.handleSetQueue setQueue
  | .updateContext context ty uuid => (s.updateContext context ty uuid).1
  | .fillContextFromPage page uuid => (s.fillContextFromPage page uuid).1
  | .mergeContext newPage => s.mergeContext newPage
  | .resetContext resetAs => s.resetContext resetAs
  | .nextTrack => s.nextTrack.1
  | .handleShuffle enabled newSeed => (s.handleShuffle smallRng enabled newSeed).1

/-- The state and the position with which an operation resets playback: only switching
shuffle off does. -/
def reset (s : ConnectState) : Op → Option (ConnectState × Nat)
  | .handleShuffle false _ =>
    if (unshuffled s).player.track.isNone then none
    else (carriedPlace (unshuffled s)).map fun k => (unshuffled s, k)
  | _ => none

def NoUnderflow (s : ConnectState) (op : Op) : Prop :=
  ∀ s' k length newIndex, reset s op = some (s', k) →
    subtraction s' (some k) = some (length, newIndex) → newIndex ≤ length

/-- Shuffle is not switched off while a queued track plays that carries a position behind the
end of the default context. -/
def InRange (s : ConnectState) : Op → Prop
  | .handleShuffle false _ => ∀ t ctx i, s.player.track = some t → t.isQueue = true →
      t.getContextIndex = some i → s.context = some ctx → i ≤ ctx.tracks.vec.length
  | _ => True

section Operands

variable {s : ConnectState} {ctx : StateContext} {k : Nat}

theorem subtraction_missing {e : StateError} (missing : s.getContext s.activeContext = .error e) :
    subtraction s (some k) = none := by
  rw [subtraction, Option.getD_some, toPosition_missing missing]
  rfl

theorem operands_ok {s' : ConnectState} {ctx' : StateContext}
    (loaded : s'.getContext s'.activeContext = .ok ctx') :
    operands k (s', .ok ()) = if k = 0 then none else some (ctx'.tracks.vec.length, k) := by
  simp [operands, loaded, Except.toOption]

/-- The previous tracks that a difference of the operands leaves. -/
def tracksAfter (tracks : List ProvidedTrack) : Option (Nat × Nat) → List ProvidedTrack
  | none => []
  | some (length, newIndex) => ((tracks.reverse.drop (wrappingSub length newIndex)).take
      SPOTIFY_MAX_PREV_TRACKS_SIZE).reverse

theorem prevAt_eq {s' : ConnectState} {ctx' : StateContext}
    (loaded : s'.getContext s'.activeContext = .ok ctx') :
    prevAt ctx'.tracks.vec k = tracksAfter ctx'.tracks.vec (operands k (s', .ok ())) := by
  rw [operands_ok loaded, prevAt]
  split
  · rfl
  · rfl

/-- A reset takes the previous tracks by the difference of these operands. -/
theorem reset_subtracts (loaded : s.getContext s.activeContext = .ok ctx) :
    s.resetPlaybackToPosition (some k) = (toPosition s k).andThen fun s' _ =>
      (s'.setPlayer fun p => { p with
        prevTracks := tracksAfter ctx.tracks.vec (subtraction s (some k))
          }).clearNextTracks.fillUpNextTracks.andThen
          fun s _ => (s.updateRestrictions, .ok ()) := by
  have sets : ∀ s' : ConnectState,
      s'.getContext s'.activeContext = .ok (ctx.moveTo (wrappingAdd k 1)) →
      s'.resetPrevTracks k = (s'.setPlayer fun p => { p with
        prevTracks := tracksAfter ctx.tracks.vec (operands k (s', .ok ())) }, .ok ()) := by
    intro s' there
    rw [resetPrevTracks_loaded there, prevAt_eq there]
    rfl
  rw [reset_toPosition, subtraction, Option.getD_some, toPosition_loaded loaded,
    resetTrack_cases loaded]
  split
  · simp only [Reply.andThen, sets _ (moved_still ctx)]
  · cases ctx.tracks.vec[k]? with
    | none => rfl
    | some t =>
      have there := sets (((moved s ctx k).setTrack t).updateCurrentIndex fun _ => k)
        (moved_set ctx t)
      simp only [Reply.andThen, there]

/-- A reset comes to the subtraction if the position is not checked, or is found to be inside
of the context. -/
theorem subtraction_eq (loaded : s.getContext s.activeContext = .ok ctx)
    (noSkip : s.isSkipTrack s.currentTrack none = false) :
    subtraction s (some k) =
      if k ≠ 0 ∧ (s.currentTrack.isQueue = true ∨ k < ctx.tracks.vec.length) then
        some (ctx.tracks.vec.length, k)
      else none := by
  rw [subtraction, Option.getD_some, toPosition_loaded loaded, resetTrack_cases loaded, stays,
    noSkip, Bool.or_false]
  by_cases queued : s.currentTrack.isQueue = true
  · rw [if_pos queued, operands_ok (moved_still ctx)]
    by_cases zero : k = 0 <;> simp [zero, queued, StateContext.moveTo]
  · rw [if_neg queued]
    cases found : ctx.tracks.vec[k]? with
    | none =>
      have outside := List.getElem?_eq_none_iff.mp found
      rw [if_neg (by simp [queued]; omega)]
      rfl
    | some t =>
      have inside := (List.getElem?_eq_some_iff.mp found).1
      refine (operands_ok (moved_set ctx t)).trans ?_
      by_cases zero : k = 0 <;> simp [zero, inside, StateContext.moveTo]

theorem resetContext_active (s : ConnectState) :
    (s.resetContext .defaultIndex).activeContext = .default := by
  simp only [resetContext, setActiveContext]
  split <;> rfl

/-- Unshuffled, the context has as many tracks, and no track that it started with. -/
theorem unshuffled_context (loaded : s.context = some ctx) :
    ∃ ctx', (unshuffled s).getContext (unshuffled s).activeContext = .ok ctx' ∧
      (unshuffled s).context = some ctx' ∧ ctx'.tracks.vec.length = ctx.tracks.vec.length ∧
      (unshuffled s).isSkipTrack (unshuffled s).currentTrack none = false := by
  obtain ⟨ctx', context, tracks, metadata⟩ : ∃ ctx', (unshuffled s).context = some ctx' ∧
      ctx'.tracks = ctx.tracks.unshuffle ∧
      ctx'.metadata = (ctx.metadata.remove "shuffle_seed").remove "initial_track" := by
    have same : (s.setShuffle false).context = some ctx := loaded
    refine ⟨StateContext.rewind { ctx with
        metadata := (ctx.metadata.remove "shuffle_seed").remove "initial_track"
        tracks := ctx.tracks.unshuffle },
      (resetContext_context (s.setShuffle false)).trans ?_, rfl, rfl⟩
    simp only [unshuffleContext, same, Option.map_some]
  have found : (unshuffled s).getContext (unshuffled s).activeContext = .ok ctx' := by
    rw [show (unshuffled s).activeContext = .default from resetContext_active _, getContext,
      context]
    rfl
  refine ⟨ctx', found, context, ?_, ?_⟩
  · rw [tracks]
    exact ctx.tracks.unshuffle_perm.length_eq
  · simp only [isSkipTrack, found, metadata, Metadata.get_remove, if_true]
    rfl

theorem unshuffled_missing (absent : s.context = none) :
    subtraction (unshuffled s) (some k) = none := by
  have context : (unshuffled s).context = none := by
    refine (resetContext_context (s.setShuffle false)).trans ?_
    simp only [unshuffleContext, show (s.setShuffle false).context = none from absent,
      Option.map_none]
  have missing : (unshuffled s).getContext (unshuffled s).activeContext =
      .error (.noContext .default) := by
    rw [show (unshuffled s).activeContext = .default from resetContext_active _, getContext,
      context]
    rfl
  exact subtraction_missing missing

end Operands

theorem carriedPlace_found {s : ConnectState} {ctx : StateContext} {k : Nat}
    (loaded : s.context = some ctx) (absent : s.currentTrack.getContextIndex = none)
    (found : carriedPlace s = some k) : k < ctx.tracks.vec.length := by
  simp only [carriedPlace, absent, Option.none_or, loaded, Option.bind_some] at found
  exact (List.findIdx?_eq_some_iff_findIdx_eq.mp found).1

theorem reset_eq_some {s s' : ConnectState} {newSeed k : Nat}
    (resets : reset s (.handleShuffle false newSeed) = some (s', k)) :
    ∃ t, s.player.track = some t ∧ carriedPlace (unshuffled s) = some k ∧ s' = unshuffled s := by
  have track := (unshuffled_samePlace s).track_eq
  simp only [reset] at resets
  split at resets
  · cases resets
  · rename_i plays
    obtain ⟨place, found, same⟩ := Option.map_eq_some_iff.mp resets
    cases same
    obtain ⟨t, playing⟩ := Option.ne_none_iff_exists'.mp (by simpa [track] using plays)
    exact ⟨t, playing, found, rfl⟩

/-- Where switching shuffle off resets playback, it does so with this state and position. -/
theorem handleShuffle_resets (smallRng : Nat → Rng) {s s' : ConnectState} {newSeed k : Nat}
    (resets : reset s (.handleShuffle false newSeed) = some (s', k)) :
    s.handleShuffle smallRng false newSeed = s'.resetPlaybackToPosition (some k) := by
  obtain ⟨t, playing, found, rfl⟩ := reset_eq_some resets
  have plays : ¬ (unshuffled s).player.track.isNone = true := by
    simp [(unshuffled_samePlace s).track_eq, playing]
  rw [shuffleOff_eq, if_neg plays]
  exact (resetToCarried_spec _).2 k found

/-- Where it does not, the context is only unshuffled. -/
theorem handleShuffle_stops (smallRng : Nat → Rng) {s : ConnectState} {newSeed : Nat}
    (stops : reset s (.handleShuffle false newSeed) = none) :
    (s.handleShuffle smallRng false newSeed).1 = unshuffled s := by
  rw [shuffleOff_eq]
  simp only [reset] at stops
  split at stops
  · rw [if_pos ‹_›]
  · obtain ⟨e, failed⟩ := (resetToCarried_spec _).1 (Option.map_eq_none_iff.mp stops)
    rw [if_neg ‹_›, failed]

theorem shuffleOff_noUnderflow_iff (s : ConnectState) (newSeed : Nat) :
    NoUnderflow s (.handleShuffle false newSeed) ↔ InRange s (.handleShuffle false newSeed) := by
  have track := (unshuffled_samePlace s).track_eq
  constructor
  · intro safe t ctx i playing queued carries loaded
    obtain ⟨ctx', found, -, length, noSkip⟩ := unshuffled_context loaded
    have current : (unshuffled s).currentTrack = t := by simp [currentTrack, track, playing]
    have resets : reset s (.handleShuffle false newSeed) = some (unshuffled s, i) := by
      simp [reset, track, playing, carriedPlace, current, carries]
    by_cases zero : i = 0
    · omega
    · have reached : subtraction (unshuffled s) (some i) = some (ctx'.tracks.vec.length, i) := by
        rw [subtraction_eq found noSkip, if_pos ⟨zero, .inl (current ▸ queued)⟩]
      have bound := safe _ _ _ _ resets reached
      omega
  · intro inRange s' k length newIndex resets reached
    obtain ⟨t, playing, found, rfl⟩ := reset_eq_some resets
    have current : (unshuffled s).currentTrack = t := by simp [currentTrack, track, playing]
    cases loaded : s.context with
    | none =>
      rw [unshuffled_missing loaded] at reached
      cases reached
    | some ctx =>
      obtain ⟨ctx', there, context, same, noSkip⟩ := unshuffled_context loaded
      rw [subtraction_eq there noSkip] at reached
      split at reached
      · rename_i passed
        cases reached
        rcases passed.2 with queued | inside
        · cases carries : t.getContextIndex with
          | none => exact Nat.le_of_lt (carriedPlace_found context (current ▸ carries) found)
          | some i =>
            obtain rfl : i = k := by simpa [carriedPlace, current, carries] using found
            have bound := inRange t ctx i playing (current ▸ queued) carries loaded
            omega
        · exact Nat.le_of_lt inside
      · cases reached

theorem noUnderflow_iff_inRange (s : ConnectState) (op : Op) :
    NoUnderflow s op ↔ InRange s op := by
  cases op with
  | handleShuffle enabled newSeed =>
    cases enabled with
    | true => exact ⟨fun _ => trivial, fun _ s' k length newIndex resets => by cases resets⟩
    | false => exact shuffleOff_noUnderflow_iff s newSeed
  | _ => exact ⟨fun _ => trivial, fun _ s' k length newIndex resets => by cases resets⟩

/-- The subtraction never underflows exactly if shuffle is never switched off while a queued
track plays that carries a position behind the end of the context. -/
theorem noUnderflow_iff (smallRng : Nat → Rng) (s : ConnectState) (ops : List Op) :
    Along (apply smallRng) NoUnderflow s ops ↔ Along (apply smallRng) InRange s ops := by
  have same : NoUnderflow = InRange :=
    funext fun s => funext fun op => propext (noUnderflow_iff_inRange s op)
  rw [same]

def fresh : ConnectState := { loaded [] none with context := none }

/-- A context of one track, and a track that is queued with a position of its own and played. -/
def queuedFrom (place : String) : List Op :=
  [.updateContext (ContextPositions.message [ContextPositions.trackWithId 1]) .default
      fun _ => ContextPositions.noUids,
    .addToQueue { ProvidedTrack.new with
      uri := "spotify:track:b", metadata := [("context_index", place)] },
    .nextTrack]

/-- The position of the queued track and the length of the context, once it plays. -/
theorem queuedFrom_places (place : String) {i : Nat}
    (plays : (run (apply fun _ _ => 0) fresh (queuedFrom place)).player.track.map
      (fun t => (t.isQueue, t.getContextIndex)) = some (true, some i))
    (length : (run (apply fun _ _ => 0) fresh (queuedFrom place)).context.map
      (fun ctx => ctx.tracks.vec.length) = some 1) :
    InRange (run (apply fun _ _ => 0) fresh (queuedFrom place)) (.handleShuffle false 0) ↔
      i ≤ 1 := by
  obtain ⟨t, track, same⟩ := Option.map_eq_some_iff.mp plays
  obtain ⟨ctx, context, one⟩ := Option.map_eq_some_iff.mp length
  obtain ⟨queued, carries⟩ := Prod.mk.inj same
  constructor
  · intro inRange
    exact one ▸ inRange t ctx i track queued carries context
  · intro bound t' ctx' i' track' _ carries' context'
    rw [track] at track'
    rw [context] at context'
    cases track'
    cases context'
    rw [carries] at carries'
    cases carries'
    exact one.symm ▸ bound

theorem queuedFromEnd_safe :
    Along (apply fun _ _ => 0) NoUnderflow fresh (queuedFrom "1" ++ [.handleShuffle false 0]) := by
  refine (noUnderflow_iff _ _ _).mpr ?_
  refine ⟨trivial, trivial, trivial, ?_, trivial⟩
  exact (queuedFrom_places "1" (by decide +kernel) (by decide +kernel)).mpr (Nat.le_refl 1)

/-- A queued track that claims position 100 in a context of one track. -/
theorem queuedFromBeyond_underflows :
    ¬ Along (apply fun _ _ => 0) NoUnderflow fresh
      (queuedFrom "100" ++ [.handleShuffle false 0]) := by
  rintro ⟨-, -, -, safe, -⟩
  have inRange := (noUnderflow_iff_inRange _ _).mp safe
  have bound := (@queuedFrom_places "100" 100 (by decide +kernel) (by decide +kernel)).mp inRange
  omega

end Repositioning
