import SqueezeboxConnect.ReportedIndex

/-!
# Commands that fail

The operations on the state change it step by step and stop at the first step
that fails. What has been changed up to there stays: an option that has been
set, an index, or a track that has been taken out of its list.
-/

namespace FailedCommands

open Connect ConnectState ContextWindow ContextRuns ConnectDeck ResetWindow ReportedIndex

inductive Command where
  | nextTrack
  | prevTrack
  | handleShuffle (enabled : Bool) (newSeed : Nat)
  | handleSetRepeatContext (enabled : Bool)
  | resetPlaybackToPosition (newIndex : Option Nat)
  deriving DecidableEq, Repr

/-- The state is all that is kept of a result. -/
def dropValue {A : Type} (r : Reply A) : Reply Unit := (r.1, r.2.map fun _ => ())

def execute (smallRng : Nat → Rng) (s : ConnectState) : Command → Reply Unit
  | .nextTrack => dropValue s.nextTrack
  | .prevTrack => dropValue s.prevTrack
  | .handleShuffle enabled newSeed => s.handleShuffle smallRng enabled newSeed
  | .handleSetRepeatContext enabled => s.handleSetRepeatContext enabled
  | .resetPlaybackToPosition newIndex => s.resetPlaybackToPosition newIndex

/-- What the player shows of the tracks and the options. -/
structure Unchanged (s s' : ConnectState) : Prop where
  track : s'.player.track = s.player.track
  prev : s'.player.prevTracks = s.player.prevTracks
  next : s'.player.nextTracks = s.player.nextTracks
  index : s'.player.index = s.player.index
  options : s'.player.options = s.player.options

def Fails {A : Type} (r : Reply A) : Prop := ∃ e, r.2 = .error e

/-- A failure leaves everything as it was. -/
def Harmless {A : Type} (s : ConnectState) (r : Reply A) : Prop := Fails r → Unchanged s r.1

theorem unchanged_refl (s : ConnectState) : Unchanged s s := ⟨rfl, rfl, rfl, rfl, rfl⟩

theorem unchanged_trans {s s' s'' : ConnectState} (h : Unchanged s s') (h' : Unchanged s' s'') :
    Unchanged s s'' :=
  ⟨h'.track.trans h.track, h'.prev.trans h.prev, h'.next.trans h.next, h'.index.trans h.index,
    h'.options.trans h.options⟩

theorem unchanged_symm {s s' : ConnectState} (h : Unchanged s s') : Unchanged s' s :=
  ⟨h.track.symm, h.prev.symm, h.next.symm, h.index.symm, h.options.symm⟩

theorem unchanged_congr {s s' s'' : ConnectState} (h : Unchanged s' s'') :
    Unchanged s s'' ↔ Unchanged s s' :=
  ⟨fun changed => unchanged_trans changed (unchanged_symm h), fun same => unchanged_trans same h⟩

theorem harmless_ok {A : Type} {s : ConnectState} {r : Reply A} {a : A} (done : r.2 = .ok a) :
    Harmless s r := by
  rintro ⟨e, fails⟩
  rw [done] at fails
  cases fails

theorem harmless_error {A : Type} {s : ConnectState} {r : Reply A} {e : StateError}
    (fails : r.2 = .error e) : Harmless s r ↔ Unchanged s r.1 :=
  ⟨fun harmless => harmless ⟨e, fails⟩, fun same _ => same⟩

theorem harmless_dropValue {A : Type} (s : ConnectState) (r : Reply A) :
    Harmless s (dropValue r) ↔ Harmless s r := by
  obtain ⟨s', e | a⟩ := r
  · rw [harmless_error rfl, harmless_error rfl]
    rfl
  · exact iff_of_true (harmless_ok rfl) (harmless_ok rfl)

section Moves

variable {s : ConnectState}

theorem loaded_of_context (fillUp : s.fillUpContext = .default) {ctx : StateContext}
    (loaded : s.context = some ctx) : Loaded s :=
  ⟨ctx, by simp [fillUp, getContext, loaded]⟩

/-- A next track has been taken when the next tracks cannot be filled up. -/
theorem nextTrack_harmless_iff :
    Harmless s s.nextTrack ↔
      Loaded s ∨ ∀ t ∈ s.player.nextTracks, t.isDelimiter = true ∨ t.isUnavailable = true := by
  obtain ⟨s₁, newTrack, passed, rest, prevTracks, same, takes, result⟩ := nextTrack_takes s
  have split := takes.split
  rw [result]
  cases newTrack with
  | none =>
    have ended := takes.ends rfl
    refine iff_of_true (harmless_ok rfl) (.inr ?_)
    simp only [split, ended, Option.toList_none, List.append_nil]
    exact takes.notPlayed
  | some t =>
    generalize taken : placed s₁ none prevTracks rest = s₂
    have loaded_iff : Loaded s₂ ↔ Loaded s := by
      subst taken
      exact ⟨loaded_congr same.context_eq.symm same.autoplay_eq.symm same.fillUp_eq.symm,
        loaded_congr same.context_eq same.autoplay_eq same.fillUp_eq⟩
    rw [← loaded_iff, playTaken]
    by_cases loaded : Loaded s₂
    · rw [fillUp_done loaded]
      exact iff_of_true (harmless_ok rfl) (.inl loaded)
    · obtain ⟨e, fails⟩ := fillUp_missing loaded
      rw [fails]
      refine iff_of_false ?_ ?_
      · intro harmless
        have kept : rest = s.player.nextTracks := by
          rw [← (harmless ⟨e, rfl⟩).next, ← taken]
          rfl
        have length := congrArg List.length (kept.trans split)
        simp only [List.length_append, Option.toList_some, List.length_singleton] at length
        omega
      · rintro (loaded' | all)
        · exact loaded loaded'
        · have playable := takes.playable t rfl
          have inside : t ∈ s.player.nextTracks := by simp [split]
          rcases all t inside with delimiter | unavailable
          · simp [delimiter] at playable
          · simp [unavailable] at playable

/-- The previous track has been taken when the next tracks cannot be filled up. -/
theorem prevTrack_harmless_iff : Harmless s s.prevTrack ↔ Loaded s ∨ lastPlayed s = none := by
  obtain ⟨prevTracks, prev, result⟩ := prevTrack_eq s
  rw [result, lastPlayed_eq prev]
  cases last : prevTracks.getLast? with
  | none => exact iff_of_true (harmless_ok rfl) (.inr rfl)
  | some newTrack =>
    obtain ⟨s₁, played, deck, -, fillUp⟩ := playReturned_eq (placed s none prevTracks.dropLast
      ((reinserted s).take SPOTIFY_MAX_NEXT_TRACKS_SIZE)) newTrack
    dsimp only
    rw [played]
    by_cases loaded : Loaded s
    · have loaded₁ : Loaded s₁ := loaded_congr deck.context_eq deck.autoplay_eq fillUp loaded
      rw [fillUp_done loaded₁]
      exact iff_of_true (harmless_ok rfl) (.inl loaded)
    · have missing : ¬ Loaded s₁ := fun loaded₁ =>
        loaded (loaded_congr deck.context_eq.symm deck.autoplay_eq.symm fillUp.symm loaded₁)
      obtain ⟨e, fails⟩ := fillUp_missing missing
      rw [fails]
      refine iff_of_false ?_ (by simp [loaded])
      intro harmless
      have kept := (harmless ⟨e, rfl⟩).prev
      have front := List.dropLast_append_getLast? newTrack last
      have length := congrArg List.length ((deck.prev_eq.symm.trans kept).trans prev)
      have whole := congrArg List.length front
      simp only [placed, setPlayer, List.length_append, List.length_singleton] at length whole
      omega

end Moves

section Reset

/-- A position that playback cannot be reset to. -/
def ResetFails (s : ConnectState) (k : Nat) : Prop :=
  match s.getContext s.activeContext with
  | .error _ => True
  | .ok ctx => ctx.tracks.vec.length ≤ k ∧
      (s.currentTrack.isQueue || s.isSkipTrack s.currentTrack none) = false

/-- The index already has that position. -/
def IndexAt (s : ConnectState) (k : Nat) : Prop :=
  s.player.index.map ContextIndex.track = some k

variable {s : ConnectState} {k : Nat}

theorem unchanged_updateCurrentIndex_iff :
    Unchanged s (s.updateCurrentIndex fun _ => k) ↔ IndexAt s k := by
  constructor
  · intro same
    rw [IndexAt, ← same.index]
    rfl
  · intro here
    cases index : s.player.index with
    | none => simp [IndexAt, index] at here
    | some i =>
      have track : i.track = k := by simpa [IndexAt, index] using here
      refine ⟨rfl, rfl, rfl, ?_, rfl⟩
      simp only [updateCurrentIndex, setPlayer, index, Option.getD_some, ← track]

theorem reset_missing {e : StateError} (missing : s.getContext s.activeContext = .error e) :
    s.resetPlaybackToPosition (some k) = (s.updateCurrentIndex fun _ => k, .error e) := by
  rw [reset_toPosition, toPosition_missing missing]
  rfl

/-- A reset that fails has set the index and nothing else that is shown. -/
theorem reset_outcome (s : ConnectState) (k : Nat) :
    (¬ ResetFails s k ∧ (s.resetPlaybackToPosition (some k)).2 = .ok ()) ∨
      (ResetFails s k ∧ ∃ s' e, s.resetPlaybackToPosition (some k) = (s', .error e) ∧
        Unchanged (s.updateCurrentIndex fun _ => k) s') := by
  rw [ResetFails]
  cases loaded : s.getContext s.activeContext with
  | error e => exact .inr ⟨trivial, _, e, reset_missing loaded, unchanged_refl _⟩
  | ok ctx =>
    have refills : ∀ track prevTracks nextTracks,
        ((placed (moved s ctx k) track prevTracks nextTracks).fillUpNextTracks.andThen
          fun s _ => (s.updateRestrictions, .ok ())).2 = .ok () := by
      intro track prevTracks nextTracks
      have ready : Loaded (placed (moved s ctx k) track prevTracks nextTracks) :=
        loaded_congr (s := moved s ctx k) rfl rfl rfl ⟨_, moved_still ctx⟩
      rw [fillUp_done ready]
      rfl
    rw [reset_loaded loaded]
    dsimp only
    rw [← stays]
    by_cases kept : stays s = true
    · rw [if_pos kept]
      exact .inl ⟨fun fails => by simp [kept] at fails, refills _ _ _⟩
    · rw [if_neg kept]
      cases found : ctx.tracks.vec[k]? with
      | some t =>
        have inside := (List.getElem?_eq_some_iff.mp found).1
        exact .inl ⟨fun fails => absurd inside (Nat.not_lt.mpr fails.1), refills _ _ _⟩
      | none =>
        have player := moved_player (s := s) (k := k) ctx
        have same : Unchanged (s.updateCurrentIndex fun _ => k) (moved s ctx k) :=
          ⟨by rw [player], by rw [player], by rw [player], by rw [player], by rw [player]⟩
        exact .inr ⟨⟨List.getElem?_eq_none_iff.mp found, Bool.eq_false_iff.mpr kept⟩, _, _, rfl,
          same⟩

theorem reset_harmless_iff (before : ConnectState) :
    Harmless before (s.resetPlaybackToPosition (some k)) ↔
      (ResetFails s k → Unchanged before (s.updateCurrentIndex fun _ => k)) := by
  rcases reset_outcome s k with ⟨works, done⟩ | ⟨fails, s', e, result, same⟩
  · exact iff_of_true (harmless_ok done) fun fails => absurd fails works
  · rw [result, harmless_error rfl, unchanged_congr same]
    exact ⟨fun kept _ => kept, fun kept => kept fails⟩

end Reset

section Options

/-- The same tracks and the same index. -/
structure SamePlace (s s' : ConnectState) : Prop extends SameTracks s s' where
  index_eq : s'.player.index = s.player.index

variable {s s' : ConnectState}

theorem unchanged_iff_options (same : SamePlace s s') :
    Unchanged s s' ↔ s'.player.options = s.player.options :=
  ⟨Unchanged.options, fun options =>
    ⟨same.track_eq, same.prev_eq, same.next_eq, same.index_eq, options⟩⟩

theorem unchanged_index_iff (same : SamePlace s s') (k : Nat) :
    Unchanged s (s'.updateCurrentIndex fun _ => k) ↔
      s'.player.options = s.player.options ∧ IndexAt s k := by
  have index : IndexAt s' k ↔ IndexAt s k := by rw [IndexAt, IndexAt, same.index_eq]
  rw [← index, ← unchanged_updateCurrentIndex_iff]
  constructor
  · intro kept
    refine ⟨kept.options, rfl, rfl, rfl, ?_, rfl⟩
    exact kept.index.trans same.index_eq.symm
  · rintro ⟨options, kept⟩
    exact ⟨same.track_eq, same.prev_eq, same.next_eq, kept.index.trans same.index_eq, options⟩

section

variable (s)

theorem setShuffle_options_iff (enabled : Bool) :
    (s.setShuffle enabled).player.options = s.player.options ↔ s.shufflingContext = enabled := by
  constructor
  · intro same
    exact (congrArg ContextPlayerOptions.shufflingContext same).symm
  · rintro rfl
    rfl

theorem setRepeatContext_options_iff (enabled : Bool) :
    (s.setRepeatContext enabled).player.options = s.player.options ↔ s.repeatContext = enabled := by
  constructor
  · intro same
    exact (congrArg ContextPlayerOptions.repeatingContext same).symm
  · rintro rfl
    rfl

theorem resetContext_unchanged : Unchanged s (s.resetContext .defaultIndex) := by
  simp only [resetContext, setActiveContext]
  split <;> exact ⟨rfl, rfl, rfl, rfl, rfl⟩

theorem resetContext_fillUp : (s.resetContext .defaultIndex).fillUpContext = .default := by
  simp only [resetContext, setActiveContext]
  split <;> rfl

theorem resetContext_context :
    (s.resetContext .defaultIndex).context =
      s.unshuffleContext.context.map StateContext.rewind := by
  simp only [resetContext, setActiveContext]
  split <;> rfl

end

/-- A reset to a place that has been looked for, once an option has been set: without a
place it fails as well. -/
def Kept (kept : Prop) (s : ConnectState) : Option Nat → Prop
  | none => kept
  | some k => ResetFails s k → kept ∧ IndexAt s k

theorem search_harmless_iff (same : SamePlace s s') {place : Option Nat} {r : Reply Unit}
    (missing : place = none → ∃ e, r = (s', .error e))
    (found : ∀ k, place = some k → r = s'.resetPlaybackToPosition (some k)) :
    Harmless s r ↔ Kept (s'.player.options = s.player.options) s' place := by
  cases place with
  | none =>
    obtain ⟨e, result⟩ := missing rfl
    rw [result, harmless_error rfl, unchanged_iff_options same, Kept]
  | some k =>
    have index : IndexAt s' k ↔ IndexAt s k := by rw [IndexAt, IndexAt, same.index_eq]
    rw [found k rfl, reset_harmless_iff, unchanged_index_iff same, Kept, index]

/-- The place of the current track: the one it carries, or the first one with its uri. -/
def carriedPlace (s : ConnectState) : Option Nat :=
  s.currentTrack.getContextIndex.or
    (s.context.bind fun ctx => ctx.tracks.vec.findIdx? fun c => c.uri == s.currentTrack.uri)

/-- What switching shuffle off does in the end: a reset to the place of the current track. -/
def resetToCarried (s : ConnectState) : Reply Unit :=
  match s.currentTrack.getContextIndex with
  | some currentIndex => s.resetPlaybackToPosition (some currentIndex)
  | none => resetToFirst s fun c => c.uri == s.currentTrack.uri

theorem resetToCarried_spec (s : ConnectState) :
    (carriedPlace s = none → ∃ e, resetToCarried s = (s, .error e)) ∧
      ∀ k, carriedPlace s = some k → resetToCarried s = s.resetPlaybackToPosition (some k) := by
  simp only [carriedPlace, resetToCarried]
  cases s.currentTrack.getContextIndex with
  | some i =>
    constructor
    · intro absent
      cases absent
    · rintro k ⟨⟩
      rfl
  | none =>
    rw [Option.none_or]
    exact resetToFirst_spec s (fun c => c.uri == s.currentTrack.uri) rfl

/-- Shuffle is off and the context back in its order. -/
def unshuffled (s : ConnectState) : ConnectState := (s.setShuffle false).resetContext .defaultIndex

/-- The context is about to be shuffled. -/
def shuffling (s : ConnectState) : ConnectState :=
  (s.setShuffle true).clearPrevTrack.clearNextTracks.resetContext .defaultIndex

variable (smallRng : Nat → Rng)

section

variable (s)

theorem unshuffled_samePlace : SamePlace s (unshuffled s) := by
  have same := resetContext_unchanged (s.setShuffle false)
  exact ⟨⟨same.track, same.prev, same.next⟩, same.index⟩

theorem unshuffled_options_iff :
    (unshuffled s).player.options = s.player.options ↔ s.shufflingContext = false := by
  have same := (resetContext_unchanged (s.setShuffle false)).options
  rw [unshuffled, same]
  exact setShuffle_options_iff s false

theorem shuffleOff_eq (newSeed : Nat) :
    s.handleShuffle smallRng false newSeed =
      if (unshuffled s).player.track.isNone then (unshuffled s, .ok ())
      else resetToCarried (unshuffled s) := rfl

theorem shuffleOff_harmless_iff (newSeed : Nat) :
    Harmless s (s.handleShuffle smallRng false newSeed) ↔ s.player.track = none ∨
      Kept (s.shufflingContext = false) (unshuffled s) (carriedPlace (unshuffled s)) := by
  have track := (unshuffled_samePlace s).track_eq
  rw [← unshuffled_options_iff]
  rw [shuffleOff_eq]
  by_cases absent : s.player.track = none
  · rw [if_pos (by rw [track, absent]; rfl)]
    exact iff_of_true (harmless_ok rfl) (.inl absent)
  · obtain ⟨missing, found⟩ := resetToCarried_spec (unshuffled s)
    rw [if_neg (by rw [track]; simpa using absent), or_iff_right absent]
    exact search_harmless_iff (unshuffled_samePlace s) missing found

theorem repeat_harmless_iff (enabled : Bool) :
    Harmless s (s.handleSetRepeatContext enabled) ↔
      Kept (s.repeatContext = enabled) (repeatSet enabled s) (uriPlace (repeatSet enabled s)) := by
  obtain ⟨fillUp, set⟩ := repeatSet_eq enabled s
  have same : SamePlace s (repeatSet enabled s) := by
    rw [set]
    exact ⟨⟨rfl, rfl, rfl⟩, rfl⟩
  have options : (repeatSet enabled s).player.options = s.player.options ↔
      s.repeatContext = enabled := by
    rw [set]
    exact setRepeatContext_options_iff s enabled
  obtain ⟨missing, found⟩ := resetToCurrent_spec (repeatSet enabled s)
  rw [← options, handleSetRepeatContext_eq]
  exact search_harmless_iff same missing found

end

/-- Shuffle is set before it is known whether the context can be shuffled. -/
def ShuffleKept (s : ConnectState) : Prop :=
  match s.validateShuffleAllowed with
  | .error _ => s.shufflingContext = true
  | .ok () => s.context = none → s.shufflingContext = true ∧ s.player.prevTracks = [] ∧
      ∀ t ∈ s.player.nextTracks, t.isQueue = true

theorem unchanged_shuffling_iff (s : ConnectState) :
    Unchanged s (shuffling s) ↔ s.shufflingContext = true ∧ s.player.prevTracks = [] ∧
      ∀ t ∈ s.player.nextTracks, t.isQueue = true := by
  have same := resetContext_unchanged (s.setShuffle true).clearPrevTrack.clearNextTracks
  rw [shuffling, unchanged_congr same, ← setShuffle_options_iff, ← List.takeWhile_eq_self_iff]
  constructor
  · intro kept
    exact ⟨kept.options, kept.prev.symm, kept.next⟩
  · rintro ⟨options, prev, next⟩
    exact ⟨rfl, prev.symm, next, rfl, options⟩

theorem shuffleOn_harmless_iff (s : ConnectState) (newSeed : Nat) :
    Harmless s (s.handleShuffle smallRng true newSeed) ↔ ShuffleKept s := by
  rw [ShuffleKept]
  cases allowed : s.validateShuffleAllowed with
  | error e =>
    have allowed' : (s.setShuffle true).validateShuffleAllowed = .error e := allowed
    have result : s.handleShuffle smallRng true newSeed = (s.setShuffle true, .error e) := by
      simp only [handleShuffle, if_true, shuffleNew, allowed']
    have same : SamePlace s (s.setShuffle true) := ⟨⟨rfl, rfl, rfl⟩, rfl⟩
    rw [result, harmless_error rfl, unchanged_iff_options same, setShuffle_options_iff]
  | ok _ =>
    have allowed' : (s.setShuffle true).validateShuffleAllowed = .ok () := allowed
    have result : s.handleShuffle smallRng true newSeed =
        (s.setShuffle true).shuffle smallRng newSeed s.currentTrack.uri := by
      simp only [handleShuffle, if_true, shuffleNew, allowed']
      rfl
    have context : ((s.setShuffle true).clearPrevTrack.clearNextTracks.resetContext
        .defaultIndex).context = s.unshuffleContext.context.map StateContext.rewind :=
      resetContext_context (s.setShuffle true).clearPrevTrack.clearNextTracks
    have shuffled := shuffle_eq smallRng (s.setShuffle true) newSeed s.currentTrack.uri
    dsimp only at shuffled
    rw [context] at shuffled
    dsimp only
    rw [result, shuffled, ← unchanged_shuffling_iff]
    cases loaded : s.context with
    | none =>
      simp only [unshuffleContext, loaded, Option.map_none, true_imp_iff]
      exact harmless_error rfl
    | some ctx =>
      simp only [unshuffleContext, loaded, Option.map_some, reduceCtorEq, false_imp_iff, iff_true]
      have ready := resetContext_fillUp (s.setShuffle true).clearPrevTrack.clearNextTracks
      refine harmless_ok (congrArg Prod.snd (fillUp_done ?_))
      exact loaded_of_context (by exact ready) rfl

end Options

/-- When a failure of a command leaves everything as it was: where it cannot fail, or
where what it sets before it fails has been so already. -/
def Clean (s : ConnectState) : Command → Prop
  | .nextTrack =>
    Loaded s ∨ ∀ t ∈ s.player.nextTracks, t.isDelimiter = true ∨ t.isUnavailable = true
  | .prevTrack => Loaded s ∨ lastPlayed s = none
  | .handleShuffle true _ => ShuffleKept s
  | .handleShuffle false _ => s.player.track = none ∨
      Kept (s.shufflingContext = false) (unshuffled s) (carriedPlace (unshuffled s))
  | .handleSetRepeatContext enabled =>
      Kept (s.repeatContext = enabled) (repeatSet enabled s) (uriPlace (repeatSet enabled s))
  | .resetPlaybackToPosition newIndex => ResetFails s (newIndex.getD 0) →
    IndexAt s (newIndex.getD 0)

theorem failure_unchanged_iff (smallRng : Nat → Rng) (s : ConnectState) (command : Command) :
    (Fails (execute smallRng s command) → Unchanged s (execute smallRng s command).1) ↔
      Clean s command := by
  change Harmless s (execute smallRng s command) ↔ _
  cases command with
  | nextTrack => exact (harmless_dropValue s s.nextTrack).trans nextTrack_harmless_iff
  | prevTrack => exact (harmless_dropValue s s.prevTrack).trans prevTrack_harmless_iff
  | handleShuffle enabled newSeed =>
    cases enabled with
    | true => exact shuffleOn_harmless_iff smallRng s newSeed
    | false => exact shuffleOff_harmless_iff s smallRng newSeed
  | handleSetRepeatContext enabled => exact repeat_harmless_iff s enabled
  | resetPlaybackToPosition newIndex =>
    change Harmless s (s.resetPlaybackToPosition (some (newIndex.getD 0))) ↔ _
    rw [reset_harmless_iff, unchanged_updateCurrentIndex_iff]
    rfl

/-- A track is playing and another one is next, but their context is gone. -/
def withoutContext : ConnectState :=
  { placed (loaded [] none) (some ⟨"a", "", [], .context⟩) [] [⟨"b", "", [], .context⟩] with
    context := none }

/-- Moving on fails, and neither the track that was playing nor the next one is left. -/
theorem nextTrack_losesTracks :
    Fails (execute (fun _ _ => 0) withoutContext .nextTrack) ∧
      ¬ Unchanged withoutContext (execute (fun _ _ => 0) withoutContext .nextTrack).1 := by
  constructor
  · exact ⟨.noContext .default, rfl⟩
  · intro same
    have track := same.track
    revert track
    decide +kernel

end FailedCommands
