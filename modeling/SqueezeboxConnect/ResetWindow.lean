import SqueezeboxConnect.ConnectDeck
import SqueezeboxConnect.ContextRuns

/-!
# The window a reset builds

`reset_playback_to_position` rebuilds the current track, the previous tracks and
the next tracks around a position of the context. Toggling repeat resets to
the first track with the uri of the current one, which need not be the place
that is playing.
-/

namespace ResetWindow

open Connect ConnectState ContextWindow ContextRuns ConnectDeck ProvidedTrack Words

/-- The next tracks are filled up from it. -/
structure Filling (ctx : StateContext) (s : ConnectState) : Prop extends Active ctx s where
  fillUpContext : s.fillUpContext = .default

section Filled

variable {ctx : StateContext} {s : ConnectState}

theorem filling_getContext (h : Filling ctx s) : s.getContext s.fillUpContext = .ok ctx := by
  simp [h.fillUpContext, getContext, h.context]

theorem filling_supplies (h : Filling ctx s) : Supplies ctx.tracks.vec s :=
  ⟨⟨ctx, filling_getContext h, rfl⟩, active_isSkipTrack h.toActive⟩

/-- Filling up goes on with the playable tracks behind the cursor. -/
theorem fillUp_continues (h : Filling ctx s) :
    ∃ more fillUp i j, s.fillUpNextTracks = (refilled s
        ((offered (ctx.tracks.vec.drop ctx.index.track)).take
          (SPOTIFY_MAX_NEXT_TRACKS_SIZE - s.player.nextTracks.length) ++ more) fillUp i j, .ok ()) ∧
      ∀ t ∈ more, Drawn s t := by
  have loaded := filling_getContext h
  obtain ⟨added, s', ctx', c', -, ⟨fillUp, i, j, filled⟩, -, feeds⟩ := fillUp_feeds loaded
  obtain ⟨-, drawn, -⟩ := feeds_refilled feeds loaded
  obtain ⟨more, rfl⟩ := feeds_ahead feeds loaded
  rw [ahead_supplied (filling_supplies h)] at filled drawn
  exact ⟨more, fillUp, i, j, filled, fun t inside => drawn t (List.mem_append_right _ inside)⟩

/-- Filling up from a context in which every track can be played, and nothing else. -/
theorem fillUp_exact (h : Filling ctx s) (once : s.repeatContext = false)
    (alone : s.autoplayContext = none) (all : ∀ u ∈ ctx.tracks.vec, u.isUnavailable = false)
    {room : Nat} (places : SPOTIFY_MAX_NEXT_TRACKS_SIZE - s.player.nextTracks.length = room) :
    s.fillUpNextTracks = ({ addNext s ((ctx.tracks.vec.drop ctx.index.track).take room) with
      context := some (ctx.moveTo
        (ctx.index.track + min room (ctx.tracks.vec.length - ctx.index.track))) }, .ok ()) := by
  have plain : Plain ctx.tracks.vec s :=
    ⟨⟨⟨ctx, h.context, rfl, h.unmarked⟩, alone, h.activeContext, once⟩, h.fillUpContext⟩
  have every : ∀ k, offered (ctx.tracks.vec.drop k) = ctx.tracks.vec.drop k := by
    intro k
    rw [offered, List.filter_eq_self]
    intro u inside
    simp [all u (List.mem_of_mem_drop inside)]
  obtain ⟨ctx', n, hctx, before, filled, rest, later, inside, ended⟩ := fillUp_offered plain places
  cases h.context.symm.trans hctx
  rw [before, every] at filled ended
  rw [before] at later inside
  have lengths := congrArg List.length rest
  rw [before, every, every, List.length_drop, List.length_drop, List.length_drop] at lengths
  rw [List.length_drop] at ended
  obtain rfl : n = ctx.index.track + min room (ctx.tracks.vec.length - ctx.index.track) := by omega
  exact filled

end Filled

/-- The state in which a reset fills up the next tracks again. -/
def rewound (ctx : StateContext) (p : Nat) (s : ConnectState) : ConnectState :=
  { s with
    player := { s.player with
      track := resetCurrent ctx.tracks.vec s p
      prevTracks := tracksBefore ctx.tracks.vec p
      nextTracks := s.player.nextTracks.takeWhile ProvidedTrack.isQueue
      index := some { s.player.index.getD ⟨0, 0⟩ with track := p } }
    fillUpContext := .default
    context := some (ctx.moveTo (p + 1)) }

section Reset

variable {ctx : StateContext} {s : ConnectState} {p : Nat}

theorem rewound_filling (h : Active ctx s) : Filling (ctx.moveTo (p + 1)) (rewound ctx p s) :=
  ⟨⟨rfl, h.activeContext, h.unmarked⟩, rfl⟩

/-- A reset within the context does not fail before the next tracks are filled up. -/
theorem reset_eq (h : Active ctx s) (length : ctx.tracks.vec.length ≤ vecMax)
    (inside : p < ctx.tracks.vec.length) :
    s.resetPlaybackToPosition (some p) =
      (rewound ctx p s).fillUpNextTracks.andThen fun s _ => (s.updateRestrictions, .ok ()) := by
  have cursor : placed (moved s ctx p) (resetCurrent ctx.tracks.vec s p)
      (tracksBefore ctx.tracks.vec p) (s.player.nextTracks.takeWhile isQueue) =
        rewound ctx p s := by
    simp only [moved, wrappingAdd_inside length inside.le, h.activeContext, setContext,
      updateCurrentIndex, setPlayer, placed, rewound]
  rw [reset_placed h length, if_pos (.inr inside), cursor]

theorem reset_state (h : Active ctx s) (length : ctx.tracks.vec.length ≤ vecMax)
    (inside : p < ctx.tracks.vec.length) :
    ∃ more fillUp i j, s.resetPlaybackToPosition (some p) = ((refilled (rewound ctx p s)
        ((offered (ctx.tracks.vec.drop (p + 1))).take (SPOTIFY_MAX_NEXT_TRACKS_SIZE -
          (s.player.nextTracks.takeWhile isQueue).length) ++ more)
        fillUp i j).updateRestrictions, .ok ()) ∧
      ∀ t ∈ more, Drawn s t := by
  obtain ⟨more, fillUp, i, j, filled, drawn⟩ := fillUp_continues (rewound_filling (p := p) h)
  have contexts : stock (rewound ctx p s) = stock s := by
    simp [stock, rewound, stored, h.context, StateContext.moveTo]
  refine ⟨more, fillUp, i, j, ?_, ?_⟩
  · rw [reset_eq h length inside, filled]
    rfl
  · intro t inside
    have known := drawn t inside
    rwa [Drawn, contexts] at known

end Reset

/-- A jump to a position puts the track there, up to ten tracks of the context in
front of it, and the queued tracks and the tracks behind it in the places that
are left. -/
theorem reset_builds_window {tracks : List ProvidedTrack} {s : ConnectState}
    (h : DefaultContext tracks s) (available : ∀ t ∈ tracks, t.isUnavailable = false)
    (length : tracks.length ≤ vecMax) {p : Nat} (inside : p < tracks.length)
    (playing : keepsQueued s = false) {queued : List ProvidedTrack}
    (front : s.player.nextTracks.takeWhile ProvidedTrack.isQueue = queued) :
    ∃ s', s.resetPlaybackToPosition (some p) = (s', .ok ()) ∧
      s'.player.track = some tracks[p] ∧
      s'.player.prevTracks = (tracks.take p).drop (p - SPOTIFY_MAX_PREV_TRACKS_SIZE) ∧
      s'.player.nextTracks = queued ++
        (tracks.drop (p + 1)).take (SPOTIFY_MAX_NEXT_TRACKS_SIZE - queued.length) ∧
      cursor s' = p + 1 +
        min (SPOTIFY_MAX_NEXT_TRACKS_SIZE - queued.length) (tracks.length - p - 1) := by
  obtain ⟨ctx, loaded, rfl, unmarked⟩ := h.context
  subst front
  have active : Active ctx s := ⟨loaded, h.activeContext, unmarked⟩
  have filled := fillUp_exact (rewound_filling (p := p) active) h.repeatContext h.autoplayContext
    available rfl
  rw [reset_eq active length inside, filled]
  refine ⟨_, rfl, ?_, ?_, rfl, ?_⟩
  · change resetCurrent ctx.tracks.vec s p = _
    rw [resetCurrent, playing, if_neg (by simp), List.getElem?_eq_getElem inside]
  · exact tracksBefore_eq length inside.le
  · rw [Nat.sub_sub]
    rfl

theorem playlist_length (n : Nat) : (playlist n).length = n := by
  simp [playlist]

/-- Twenty tracks, the twelfth one is chosen while another one is queued. -/
theorem twelfthTrack_window :
    let s := (loaded (playlist 20) none).addToQueue queuedTrack
    ∃ s', s.resetPlaybackToPosition (some 11) = (s', .ok ()) ∧
      s'.player.prevTracks = ((playlist 20).take 11).drop 1 ∧ cursor s' = 20 := by
  have default := loaded_default (playlist 20) none
  have context : DefaultContext (playlist 20)
      ((loaded (playlist 20) none).addToQueue queuedTrack) :=
    ⟨default.context, default.autoplayContext, default.activeContext, default.repeatContext⟩
  have inside : 11 < (playlist 20).length := by
    rw [playlist_length]
    decide
  obtain ⟨s', done, -, prev, -, place⟩ := reset_builds_window context (by decide) (by decide)
    inside (by decide) rfl
  refine ⟨s', done, prev, ?_⟩
  rw [place, playlist_length]
  decide

section Repeat

variable {ctx : StateContext} {s : ConnectState} {p : Nat}

/-- Behind the queued tracks come those behind a position, as far as there is room. -/
def Continues (tracks : List ProvidedTrack) (p : Nat) (queued : List ProvidedTrack)
    (s : ConnectState) : Prop :=
  ∃ more, s.player.nextTracks = queued ++ (offered (tracks.drop (p + 1))).take
    (SPOTIFY_MAX_NEXT_TRACKS_SIZE - queued.length) ++ more

/-- Playback goes on from the same position. -/
structure KeepsPlace (tracks : List ProvidedTrack) (p : Nat) (s s' : ConnectState) : Prop where
  track : s'.player.track = s.player.track
  index : s'.currentIndex = p
  next : Continues tracks p (s.player.nextTracks.takeWhile ProvidedTrack.isQueue) s'

/-- What a reset leaves, for the operations that follow. -/
structure ResetTo (ctx : StateContext) (p : Nat) (s s' : ConnectState) : Prop where
  active : ∃ i, Active (ctx.moveTo i) s'
  track : s'.player.track = resetCurrent ctx.tracks.vec s p
  index : s'.currentIndex = p
  queued : s'.player.nextTracks.takeWhile ProvidedTrack.isQueue =
    s.player.nextTracks.takeWhile ProvidedTrack.isQueue
  next : Continues ctx.tracks.vec p (s.player.nextTracks.takeWhile ProvidedTrack.isQueue) s'
  stocked : stock s' = stock s

theorem takeWhile_queued {queued more : List ProvidedTrack}
    (front : ∀ t ∈ queued, t.isQueue = true) (back : ∀ t ∈ more, t.isQueue = false) :
    (queued ++ more).takeWhile isQueue = queued := by
  rw [List.takeWhile_append_of_pos front]
  cases more with
  | nil => simp
  | cons t rest => simp [back t (by simp)]

theorem drawn_notQueue {t : ProvidedTrack} (contexts : ∀ u ∈ stock s, u.isQueue = false)
    (drawn : Drawn s t) : t.isQueue = false := by
  rcases drawn with ⟨iteration, rfl⟩ | ⟨inside, -⟩
  · rfl
  · exact contexts t inside

theorem reset_to (h : Active ctx s) (contexts : ∀ t ∈ stock s, t.isQueue = false)
    (length : ctx.tracks.vec.length ≤ vecMax) (inside : p < ctx.tracks.vec.length) :
    ∃ s', s.resetPlaybackToPosition (some p) = (s', .ok ()) ∧ ResetTo ctx p s s' := by
  obtain ⟨more, fillUp, i, j, done, drawn⟩ := reset_state h length inside
  refine ⟨_, done, ⟨i, ?_⟩, rfl, rfl, ?_, ⟨more, ?_⟩, ?_⟩
  · exact ⟨rfl, h.activeContext, h.unmarked⟩
  · refine takeWhile_queued (fun t front => List.mem_takeWhile_imp front) ?_
    intro t added
    rcases List.mem_append.mp added with taken | further
    · have known : t ∈ ctx.tracks.vec :=
        List.mem_of_mem_drop (List.mem_of_mem_filter (List.mem_of_mem_take taken))
      have found : s.getContext .default = .ok ctx := by simp [getContext, h.context]
      exact contexts t (mem_stock found known)
    · exact drawn_notQueue contexts (drawn t further)
  · exact (List.append_assoc ..).symm
  · exact stock_sameContexts ⟨⟨i, by rw [h.context]; rfl⟩, ⟨j, rfl⟩⟩

theorem reset_again {s' s'' t : ConnectState} (first : ResetTo ctx p s s') {i : Nat}
    (track : t.player.track = s'.player.track) (next : t.player.nextTracks = s'.player.nextTracks)
    (second : ResetTo (ctx.moveTo i) p t s'') : KeepsPlace ctx.tracks.vec p s' s'' := by
  refine ⟨?_, second.index, ?_⟩
  · rw [second.track, resetCurrent, keepsQueued, track]
    by_cases queued : (s'.player.track.getD .new).isQueue = true
    · rw [if_pos queued]
    · have other : keepsQueued s = false := by
        by_contra held
        have same : s'.player.track = s.player.track := by
          rw [first.track, resetCurrent, if_pos (by simpa using held)]
        rw [same] at queued
        exact held (by simpa [keepsQueued] using queued)
      rw [if_neg queued, first.track, resetCurrent, if_neg (by simp [other])]
      rfl
  · have same := second.next
    rw [next] at same
    exact same

/-- Repeat as it is set before the search. -/
def repeatSet (enabled : Bool) (s : ConnectState) : ConnectState :=
  let s := s.setRepeatContext enabled
  if enabled ∧ s.fillUpContext = .autoplay then { s with fillUpContext := .default } else s

theorem repeatSet_eq (enabled : Bool) (s : ConnectState) :
    ∃ fillUp, repeatSet enabled s =
      { s.setRepeatContext enabled with fillUpContext := fillUp } := by
  rw [repeatSet]
  dsimp only
  split
  · exact ⟨.default, rfl⟩
  · exact ⟨s.fillUpContext, rfl⟩

/-- A reset to the first track of the context that is wanted. -/
def resetToFirst (s : ConnectState) (wanted : ProvidedTrack → Bool) : Reply Unit :=
  match s.getContext .default with
  | .error e => (s, .error e)
  | .ok ctx =>
    match findIndexInContext ctx wanted with
    | .error e => (s, .error e)
    | .ok currentIndex => s.resetPlaybackToPosition (some currentIndex)

theorem resetToFirst_spec (s : ConnectState) (wanted : ProvidedTrack → Bool) {place : Option Nat}
    (search : s.context.bind (fun ctx => ctx.tracks.vec.findIdx? wanted) = place) :
    (place = none → ∃ e, resetToFirst s wanted = (s, .error e)) ∧
      ∀ k, place = some k → resetToFirst s wanted = s.resetPlaybackToPosition (some k) := by
  subst search
  cases loaded : s.context with
  | none =>
    constructor
    · intro _
      exact ⟨.noContext .default, by simp only [resetToFirst, getContext, loaded]; rfl⟩
    · rintro k ⟨⟩
  | some ctx =>
    simp only [Option.bind_some, resetToFirst, getContext, loaded, Option.elim, findIndexInContext]
    constructor
    · intro absent
      exact ⟨_, by rw [absent]⟩
    · intro k place
      rw [place]

/-- The search for the current track, and the reset to it. -/
def resetToCurrent (s : ConnectState) : Reply Unit :=
  resetToFirst s fun t => s.currentTrack.uri == t.uri

theorem handleSetRepeatContext_eq (s : ConnectState) (enabled : Bool) :
    s.handleSetRepeatContext enabled = resetToCurrent (repeatSet enabled s) := rfl

/-- The track that toggling repeat goes to. -/
def searched (tracks : List ProvidedTrack) (s : ConnectState) : Option Nat :=
  tracks.findIdx? fun t => s.currentTrack.uri == t.uri

def uriPlace (s : ConnectState) : Option Nat :=
  s.context.bind fun ctx => searched ctx.tracks.vec s

theorem resetToCurrent_spec (s : ConnectState) :
    (uriPlace s = none → ∃ e, resetToCurrent s = (s, .error e)) ∧
      ∀ k, uriPlace s = some k → resetToCurrent s = s.resetPlaybackToPosition (some k) :=
  resetToFirst_spec s (fun t => s.currentTrack.uri == t.uri) rfl

/-- Toggling repeat keeps the place exactly if the first track with the uri of the
current one is the one at that place, or there is none. -/
theorem repeatToggle_keepsPlace_iff (h : Active ctx s)
    (contexts : ∀ t ∈ stock s, t.isQueue = false) (length : ctx.tracks.vec.length ≤ vecMax)
    (inside : p < ctx.tracks.vec.length) (enabled : Bool) {s' : ConnectState}
    (reset : (s.resetPlaybackToPosition (some p)).1 = s') :
    KeepsPlace ctx.tracks.vec p s' (s'.handleSetRepeatContext enabled).1 ↔
      ∀ k, searched ctx.tracks.vec s' = some k → k = p := by
  obtain ⟨s₁, done, first⟩ := reset_to h contexts length inside
  obtain rfl : s₁ = s' := by rw [← reset, done]
  obtain ⟨i, active⟩ := first.active
  obtain ⟨fillUp, same⟩ := repeatSet_eq enabled s₁
  have active' : Active (ctx.moveTo i) (repeatSet enabled s₁) := by
    rw [same]
    exact ⟨active.context, active.activeContext, active.unmarked⟩
  have search : uriPlace (repeatSet enabled s₁) = searched ctx.tracks.vec s₁ := by
    rw [uriPlace, active'.context, same]
    rfl
  obtain ⟨missing, target⟩ := resetToCurrent_spec (repeatSet enabled s₁)
  rw [search] at missing target
  rw [handleSetRepeatContext_eq]
  cases found : searched ctx.tracks.vec s₁ with
  | none =>
    obtain ⟨e, failed⟩ := missing found
    simp only [failed, reduceCtorEq, false_imp_iff, implies_true, iff_true]
    rw [same]
    refine ⟨rfl, first.index, ?_⟩
    rw [first.queued]
    exact first.next
  | some k =>
    rw [target k found]
    have contexts' : ∀ t ∈ stock (repeatSet enabled s₁), t.isQueue = false := by
      rw [same]
      exact first.stocked ▸ contexts
    have place : k < ctx.tracks.vec.length := (List.findIdx?_eq_some_iff_getElem.mp found).1
    obtain ⟨s₂, done', second⟩ := reset_to active' contexts' length place
    rw [done']
    constructor
    · rintro keeps j ⟨⟩
      exact second.index.symm.trans keeps.index
    · intro here
      obtain rfl := here k rfl
      exact reset_again first (by rw [same]; rfl) (by rw [same]; rfl) second

end Repeat

def twice : ConnectState :=
  loaded [⟨"a", "", [], .context⟩, ⟨"b", "", [], .context⟩, ⟨"a", "", [], .context⟩] none

theorem firstOccurrence_keepsPlace :
    ∃ ctx, Active ctx twice ∧
      KeepsPlace ctx.tracks.vec 0 (twice.resetPlaybackToPosition (some 0)).1
        ((twice.resetPlaybackToPosition (some 0)).1.handleSetRepeatContext true).1 := by
  refine ⟨_, ⟨rfl, rfl, rfl⟩, ?_⟩
  refine (repeatToggle_keepsPlace_iff ⟨rfl, rfl, rfl⟩ (by decide) (by decide) (by decide) true
    rfl).mpr ?_
  decide +kernel

/-- Toggling repeat at the second occurrence goes back to the first one. -/
theorem secondOccurrence_losesPlace :
    ∃ ctx, Active ctx twice ∧ 2 < ctx.tracks.vec.length ∧
      ¬ KeepsPlace ctx.tracks.vec 2 (twice.resetPlaybackToPosition (some 2)).1
        ((twice.resetPlaybackToPosition (some 2)).1.handleSetRepeatContext true).1 := by
  refine ⟨_, ⟨rfl, rfl, rfl⟩, by decide, ?_⟩
  intro keeps
  have index := keeps.index
  revert index
  decide +kernel

end ResetWindow
