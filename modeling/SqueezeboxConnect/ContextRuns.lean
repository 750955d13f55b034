import SqueezeboxConnect.ConnectContext
import SqueezeboxConnect.ContextWindow
import SqueezeboxConnect.Words

/-!
# Operations on the window

The operations that move through a context, from a reset on. Between them the
previous tracks, the window and nothing else make up the end of the context, as
long as no track is popped from the back of the window and the reset itself
has not left out the track it went to.
-/

namespace ContextRuns

open Connect ConnectState Runs ContextWindow ProvidedTrack Words

inductive Op where
  | nextTrack
  | prevTrack
  | addToQueue (track : ProvidedTrack)
  | clearQueue
  | fillUpNextTracks
  deriving DecidableEq

def apply (s : ConnectState) : Op → ConnectState
  | .nextTrack => s.nextTrack.1
  | .prevTrack => s.prevTrack.1
  | .addToQueue track => s.addToQueue track
  | .clearQueue => s.clearQueue.1
  | .fillUpNextTracks => s.fillUpNextTracks.1

/-- The next tracks before an operation cuts them to their limit. -/
def untrimmed (s : ConnectState) : Op → List ProvidedTrack
  | .prevTrack => reinserted s
  | .addToQueue track => insertQueued (s.queued track) s.player.nextTracks
  | _ => []

/-- A context track is popped from the back of the next tracks. -/
def losesTrack (s : ConnectState) (op : Op) : Bool :=
  ((untrimmed s op).drop SPOTIFY_MAX_NEXT_TRACKS_SIZE).any ProvidedTrack.isContext

variable {tracks : List ProvidedTrack} {s s' : ConnectState} {t : ProvidedTrack}
  {newIndex : Option Nat}

theorem playing_placed (h : Playing tracks s) {nextTracks : List ProvidedTrack}
    (inside : ∀ t ∈ nextTracks, t ∈ s.player.nextTracks ∨ t.isAutoplay = false) :
    Playing tracks (placed s s.player.track s.player.prevTracks nextTracks) := by
  refine ⟨placed_plain h.plain _ _ _, ?_⟩
  intro t ht
  rcases List.mem_append.mp ht with old | new
  · exact h.noAutoplay t (List.mem_append_left _ old)
  · rcases inside t new with old | noAutoplay
    · exact h.noAutoplay t (List.mem_append_right _ old)
    · exact noAutoplay

theorem advances_of_eq (upcoming_eq : upcoming tracks s' = upcoming tracks s)
    (prev_eq : s'.player.prevTracks = s.player.prevTracks) : Advances tracks s s' :=
  ⟨[], [], by simp [upcoming_eq], by simp [prev_eq]⟩

theorem fillUpNextTracks_advances (default : DefaultTracks tracks) (h : Playing tracks s) :
    Playing tracks s.fillUpNextTracks.1 ∧ Advances tracks s s.fillUpNextTracks.1 := by
  obtain ⟨s', hfill, fills⟩ := fillUp_plain h.plain
  obtain ⟨playing, same⟩ := fills_playing default h fills
  rw [hfill]
  exact ⟨playing, advances_of_eq same fills.prev_eq⟩

theorem avail_notQueue (tracks : List ProvidedTrack) :
    avail (tracks.filter fun t => !t.isQueue) = avail tracks := by
  rw [avail, avail, List.filter_filter]
  apply List.filter_congr
  intro t _
  cases hp : t.provider <;> simp [isContext, isQueue, hp]

theorem clearQueue_advances (default : DefaultTracks tracks) (h : Playing tracks s) :
    Playing tracks s.clearQueue.1 ∧ Advances tracks s s.clearQueue.1 := by
  let cleared := placed s s.player.track s.player.prevTracks
    (s.player.nextTracks.filter fun t => !t.isQueue)
  have playing : Playing tracks cleared :=
    playing_placed h fun t ht => Or.inl (List.mem_filter.mp ht).1
  have same : upcoming tracks cleared = upcoming tracks s := by
    rw [upcoming_placed, avail_notQueue]
    rfl
  obtain ⟨playing', moved, dropped, front, prev⟩ := fillUpNextTracks_advances default playing
  exact ⟨playing', moved, dropped, by rw [← same]; exact front, prev⟩

theorem avail_insertQueued {track : ProvidedTrack} (queue : track.isQueue = true)
    (nextTracks : List ProvidedTrack) : avail (insertQueued track nextTracks) =
      avail nextTracks := by
  have gone : avail [track] = [] := by
    simp only [isQueue, beq_iff_eq] at queue
    simp [avail, isContext, queue]
  rw [insertQueued, avail_append, avail_cons, gone, List.nil_append, ← avail_append,
    List.takeWhile_append_dropWhile]

theorem addToQueue_advances (h : Playing tracks s) (track : ProvidedTrack)
    (kept : losesTrack s (.addToQueue track) = false) :
    Playing tracks (s.addToQueue track) ∧ Advances tracks s (s.addToQueue track) := by
  let inserted := insertQueued (s.queued track) s.player.nextTracks
  let next := inserted.take SPOTIFY_MAX_NEXT_TRACKS_SIZE
  have same : SameWindow (placed s s.player.track s.player.prevTracks next)
      (s.addToQueue track) := ⟨rfl, rfl, rfl, rfl, rfl, rfl, rfl, rfl⟩
  have playing : Playing tracks (placed s s.player.track s.player.prevTracks next) := by
    apply playing_placed h
    intro t ht
    have inside : t ∈ inserted := List.mem_of_mem_take ht
    rcases List.mem_append.mp inside with front | back
    · exact Or.inl (List.takeWhile_subset _ front)
    · rcases List.mem_cons.mp back with rfl | back
      · exact Or.inr rfl
      · exact Or.inl (List.dropWhile_subset _ back)
  have whole : avail next = avail s.player.nextTracks :=
    (avail_take kept).trans (avail_insertQueued rfl s.player.nextTracks)
  refine ⟨playing_of_sameWindow same playing, advances_of_eq ?_ same.prev_eq⟩
  rw [upcoming_of_sameWindow tracks same, upcoming_placed, whole]
  rfl

theorem apply_spec (default : DefaultTracks tracks) (h : Playing tracks s) (op : Op)
    (kept : losesTrack s op = false) :
    Playing tracks (apply s op) ∧
      (Advances tracks s (apply s op) ∨ op = .prevTrack ∧ Returns tracks s (apply s op)) := by
  cases op with
  | nextTrack => exact (nextTrack_advances default h).imp_right Or.inl
  | prevTrack => exact (prevTrack_returns default h kept).imp_right fun back => Or.inr ⟨rfl, back⟩
  | addToQueue track => exact (addToQueue_advances h track kept).imp_right Or.inl
  | clearQueue => exact (clearQueue_advances default h).imp_right Or.inl
  | fillUpNextTracks => exact (fillUpNextTracks_advances default h).imp_right Or.inl

/-- The previous tracks and the window make up the end of the context. -/
def Chained (tracks : List ProvidedTrack) (s : ConnectState) : Prop :=
  ∃ passed, avail tracks = passed ++ avail s.player.prevTracks ++ upcoming tracks s

theorem chained_suffix (h : Chained tracks s) : upcoming tracks s <:+ avail tracks := by
  obtain ⟨passed, split⟩ := h
  exact ⟨_, split.symm⟩

theorem chained_advances (h : Chained tracks s) (advances : Advances tracks s s') :
    Chained tracks s' := by
  obtain ⟨passed, split⟩ := h
  obtain ⟨moved, dropped, front, prev⟩ := advances
  refine ⟨passed ++ dropped, ?_⟩
  calc avail tracks
      = passed ++ (avail s.player.prevTracks ++ moved) ++ upcoming tracks s' := by
        rw [split, front]
        simp only [List.append_assoc]
    _ = passed ++ dropped ++ avail s'.player.prevTracks ++ upcoming tracks s' := by
        rw [prev]
        simp only [List.append_assoc]

theorem chained_returns (h : Chained tracks s) (returns : Returns tracks s s') :
    Chained tracks s' := by
  obtain ⟨passed, split⟩ := h
  obtain ⟨back, prev, front⟩ := returns
  refine ⟨passed, ?_⟩
  rw [split, prev, front]
  simp only [List.append_assoc]

theorem apply_chained (default : DefaultTracks tracks) (h : Playing tracks s ∧ Chained tracks s)
    (op : Op) (kept : losesTrack s op = false) :
    Playing tracks (apply s op) ∧ Chained tracks (apply s op) := by
  obtain ⟨playing, forward | ⟨-, back⟩⟩ := apply_spec default h.1 op kept
  · exact ⟨playing, chained_advances h.2 forward⟩
  · exact ⟨playing, chained_returns h.2 back⟩

/-- Without going back the previous tracks do not matter. -/
theorem apply_suffix (default : DefaultTracks tracks)
    (h : Playing tracks s ∧ upcoming tracks s <:+ avail tracks) (op : Op)
    (kept : losesTrack s op = false ∧ op ≠ .prevTrack) :
    Playing tracks (apply s op) ∧ upcoming tracks (apply s op) <:+ avail tracks := by
  obtain ⟨playing, forward | ⟨prev, -⟩⟩ := apply_spec default h.1 op kept.1
  · obtain ⟨moved, dropped, front, -⟩ := forward
    have shorter : upcoming tracks (apply s op) <:+ upcoming tracks s := ⟨moved, front.symm⟩
    exact ⟨playing, shorter.trans h.2⟩
  · exact absurd prev kept.2

theorem tracksBefore_eq (length : tracks.length ≤ vecMax) {p : Nat} (inside : p ≤ tracks.length) :
    tracksBefore tracks p = (tracks.take p).drop (p - SPOTIFY_MAX_PREV_TRACKS_SIZE) := by
  have difference : wrappingSub tracks.length p = tracks.length - p := by
    simp only [wrappingSub, usizeSize, vecMax] at length ⊢
    omega
  have before : tracks.reverse.drop (tracks.length - p) = (tracks.take p).reverse := by
    rw [List.drop_reverse]
    congr 2
    omega
  rw [tracksBefore, difference, before, List.reverse_take, List.reverse_reverse,
    List.length_reverse, List.length_take, Nat.min_eq_left inside]

section

variable (tracks)

theorem tracksBefore_suffix (newIndex : Nat) (inside : newIndex ≤ tracks.length)
    (length : tracks.length ≤ vecMax) : tracksBefore tracks newIndex <:+ tracks.take newIndex := by
  rw [tracksBefore_eq length inside]
  exact List.drop_suffix ..

theorem tracksBefore_beyond (newIndex : Nat) (beyond : tracks.length < newIndex)
    (bound : newIndex < usizeSize) : tracksBefore tracks newIndex = [] := by
  have wrapped : tracks.reverse.length ≤ wrappingSub tracks.length newIndex := by
    simp only [wrappingSub, usizeSize, List.length_reverse] at bound ⊢
    omega
  rw [tracksBefore, List.drop_eq_nil_of_le wrapped]
  rfl

theorem tracksBefore_zero (length : tracks.length ≤ vecMax) : tracksBefore tracks 0 = [] := by
  have nothing := tracksBefore_suffix tracks 0 (Nat.zero_le _) length
  simpa using nothing

end

/-- A queued track stays the current one when playback is reset. -/
def keepsQueued (s : ConnectState) : Bool := (s.player.track.getD .new).isQueue

section Steps

variable {s : ConnectState} {k : Nat}

/-- The state once the cursor of the active context has been moved. -/
def moved (s : ConnectState) (ctx : StateContext) (k : Nat) : ConnectState :=
  let s' := (s.updateCurrentIndex fun _ => k).setContext s.activeContext
    (ctx.moveTo (wrappingAdd k 1))
  { s' with fillUpContext := s'.activeContext }

theorem setContext_active (s : ConnectState) (ty : ContextType) (ctx : StateContext) :
    (s.setContext ty ctx).activeContext = s.activeContext := by
  cases ty <;> rfl

theorem setContext_player (s : ConnectState) (ty : ContextType) (ctx : StateContext) :
    (s.setContext ty ctx).player = s.player := by
  cases ty <;> rfl

theorem getContext_setContext (s : ConnectState) (ty : ContextType) (ctx : StateContext) :
    (s.setContext ty ctx).getContext ty = .ok ctx := by
  cases ty <;> rfl

theorem getContext_moved (ctx : StateContext) :
    (moved s ctx k).getContext s.activeContext = .ok (ctx.moveTo (wrappingAdd k 1)) :=
  (getContext_congr rfl rfl _).trans (getContext_setContext ..)

theorem moved_active (ctx : StateContext) : (moved s ctx k).activeContext = s.activeContext :=
  setContext_active ..

/-- The context that a reset has moved is found again, also once the track has been set. -/
theorem moved_still (ctx : StateContext) :
    (moved s ctx k).getContext (moved s ctx k).activeContext =
      .ok (ctx.moveTo (wrappingAdd k 1)) := by
  rw [moved_active, getContext_moved]

theorem moved_set (ctx : StateContext) (t : ProvidedTrack) :
    (((moved s ctx k).setTrack t).updateCurrentIndex fun _ => k).getContext
      (moved s ctx k).activeContext = .ok (ctx.moveTo (wrappingAdd k 1)) :=
  (getContext_congr rfl rfl _).trans (moved_still ctx)

theorem moved_player (ctx : StateContext) :
    (moved s ctx k).player = (s.updateCurrentIndex fun _ => k).player :=
  setContext_player ..

theorem moved_isSkipTrack {ctx : StateContext} (loaded : s.getContext s.activeContext = .ok ctx)
    (t : ProvidedTrack) (i : Option Nat) : (moved s ctx k).isSkipTrack t i = s.isSkipTrack t i := by
  simp only [isSkipTrack, moved_active, getContext_moved, loaded]
  rfl

theorem updateContextIndex_active {ctx : StateContext}
    (loaded : s.getContext s.activeContext = .ok ctx) :
    (s.updateCurrentIndex fun _ => k).updateContextIndex s.activeContext (wrappingAdd k 1) =
      ((s.updateCurrentIndex fun _ => k).setContext s.activeContext
        (ctx.moveTo (wrappingAdd k 1)), .ok ()) := by
  have same : (s.updateCurrentIndex fun _ => k).getContext s.activeContext = .ok ctx :=
    (getContext_congr rfl rfl _).trans loaded
  simp only [updateContextIndex, same]
  rfl

/-- The current track stays where playback is reset. -/
def stays (s : ConnectState) : Bool := s.currentTrack.isQueue || s.isSkipTrack s.currentTrack none

/-- The previous tracks that a reset to a position sets. -/
def prevAt (tracks : List ProvidedTrack) (k : Nat) : List ProvidedTrack :=
  if k = 0 then [] else tracksBefore tracks k

theorem resetTrack_cases {ctx : StateContext} (loaded : s.getContext s.activeContext = .ok ctx) :
    (moved s ctx k).resetTrack k =
      if stays s = true then (moved s ctx k, .ok ())
      else match ctx.tracks.vec[k]? with
        | none => (moved s ctx k, .error (.canNotFindTrackInContext (some k) ctx.tracks.vec.length))
        | some t => (((moved s ctx k).setTrack t).updateCurrentIndex fun _ => k, .ok ()) := by
  have current : (moved s ctx k).player.track.getD .new = s.currentTrack := by
    rw [moved_player]
    rfl
  simp only [resetTrack, current, moved_isSkipTrack loaded]
  rw [← stays]
  split
  · rfl
  · simp only [setCurrentTrack, moved_active, getContext_moved]
    rfl

theorem resetPrevTracks_loaded {ctx : StateContext}
    (loaded : s.getContext s.activeContext = .ok ctx) :
    s.resetPrevTracks k =
      (s.setPlayer fun player => { player with prevTracks := prevAt ctx.tracks.vec k },
        .ok ()) := by
  have same : (s.setPlayer fun p => { p with prevTracks := [] }).getContext s.activeContext =
      .ok ctx := (getContext_congr rfl rfl _).trans loaded
  simp only [resetPrevTracks, prevAt]
  split
  · rfl
  · simp only [setPlayer] at same ⊢
    rw [same]

/-- A reset up to the point where the previous tracks are set. -/
def toPosition (s : ConnectState) (k : Nat) : Reply Unit :=
  let s := s.updateCurrentIndex fun _ => k
  (s.updateContextIndex s.activeContext (wrappingAdd k 1)).andThen fun s _ =>
    ({ s with fillUpContext := s.activeContext }).resetTrack k

theorem reset_toPosition (s : ConnectState) (k : Nat) :
    s.resetPlaybackToPosition (some k) =
      (toPosition s k).andThen fun s _ => (s.resetPrevTracks k).andThen fun s _ =>
        s.clearNextTracks.fillUpNextTracks.andThen fun s _ => (s.updateRestrictions, .ok ()) := by
  simp only [resetPlaybackToPosition, toPosition, Option.getD_some]
  generalize ConnectState.updateContextIndex _ _ _ = reply
  obtain ⟨s', e | _⟩ := reply
  · rfl
  · rfl

theorem toPosition_loaded {ctx : StateContext} (loaded : s.getContext s.activeContext = .ok ctx) :
    toPosition s k = (moved s ctx k).resetTrack k := by
  change ((s.updateCurrentIndex fun _ => k).updateContextIndex s.activeContext
    (wrappingAdd k 1)).andThen _ = _
  rw [updateContextIndex_active loaded]
  rfl

theorem toPosition_missing {e : StateError} (missing : s.getContext s.activeContext = .error e) :
    toPosition s k = (s.updateCurrentIndex fun _ => k, .error e) := by
  have same : (s.updateCurrentIndex fun _ => k).getContext
      (s.updateCurrentIndex fun _ => k).activeContext = .error e :=
    (getContext_congr rfl rfl _).trans missing
  simp only [toPosition, updateContextIndex, same]
  rfl

/-- A reset up to the point where the next tracks are filled up again. It fails before that
where the current track does not stay and the position is not in the context. -/
theorem reset_loaded {ctx : StateContext} (loaded : s.getContext s.activeContext = .ok ctx)
    (k : Nat) :
    s.resetPlaybackToPosition (some k) =
      match if stays s then some s.player.track else ctx.tracks.vec[k]?.map some with
      | none => (moved s ctx k, .error (.canNotFindTrackInContext (some k) ctx.tracks.vec.length))
      | some track => (placed (moved s ctx k) track (prevAt ctx.tracks.vec k)
          (s.player.nextTracks.takeWhile isQueue)).fillUpNextTracks.andThen
            fun s _ => (s.updateRestrictions, .ok ()) := by
  rw [reset_toPosition, toPosition_loaded loaded, resetTrack_cases loaded]
  by_cases kept : stays s = true
  · rw [if_pos kept, if_pos kept]
    simp only [Reply.andThen, resetPrevTracks_loaded (moved_still ctx), clearNextTracks, placed,
      setPlayer, moved_player]
    rfl
  · rw [if_neg kept, if_neg kept]
    cases ctx.tracks.vec[k]? with
    | none => rfl
    | some t =>
      change (ConnectState.resetPrevTracks _ k).andThen _ = _
      rw [resetPrevTracks_loaded (moved_set ctx t)]
      simp only [Reply.andThen, clearNextTracks, Option.map_some, placed, setTrack,
        updateCurrentIndex, setPlayer, moved_player]
      rfl

end Steps

/-- The default context is active and not shuffled. -/
structure Active (ctx : StateContext) (s : ConnectState) : Prop where
  context : s.context = some ctx
  activeContext : s.activeContext = .default
  unmarked : ctx.metadata.get "initial_track" = none

theorem noAutoplay_queue (queue : t.isQueue = true) : t.isAutoplay = false := by
  simp only [isQueue, beq_iff_eq] at queue
  simp [isAutoplay, queue]

theorem avail_queue (queue : ∀ t ∈ tracks, t.isQueue = true) : avail tracks = [] := by
  apply avail_eq_nil
  rw [List.any_eq_false]
  intro t ht
  have provider := queue t ht
  simp only [isQueue, beq_iff_eq] at provider
  simp [isContext, provider]

def resetCurrent (tracks : List ProvidedTrack) (s : ConnectState) (n : Nat) :
    Option ProvidedTrack :=
  if keepsQueued s then s.player.track else tracks[n]?

theorem resetCurrent_queue {n : Nat} (queued : keepsQueued s = true)
    (ht : t ∈ (resetCurrent tracks s n).toList) : t.isQueue = true := by
  simp only [resetCurrent, if_pos queued, Option.mem_toList] at ht
  simpa [keepsQueued, Option.mem_def.mp ht] using queued

theorem resetCurrent_noAutoplay (default : DefaultTracks tracks) {n : Nat}
    (ht : t ∈ (resetCurrent tracks s n).toList) : t.isAutoplay = false := by
  by_cases queued : keepsQueued s = true
  · exact noAutoplay_queue (resetCurrent_queue queued ht)
  · simp only [resetCurrent, if_neg queued, Option.mem_toList] at ht
    exact noAutoplay_default default (List.mem_of_getElem? ht)

theorem avail_resetCurrent (tracks : List ProvidedTrack) (s : ConnectState) (n : Nat) :
    avail (resetCurrent tracks s n).toList =
      if keepsQueued s then [] else avail tracks[n]?.toList := by
  by_cases queued : keepsQueued s = true
  · rw [if_pos queued]
    exact avail_queue fun t ht => resetCurrent_queue queued ht
  · rw [if_neg queued, resetCurrent, if_neg queued]

section Reset

variable {ctx : StateContext} {p : Nat}

theorem active_isSkipTrack (h : Active ctx s) (t : ProvidedTrack) (iteration : Option Nat) :
    s.isSkipTrack t iteration = false := by
  simp [isSkipTrack, h.activeContext, getContext, h.context, h.unmarked]

theorem moved_context (h : Active ctx s) :
    (moved s ctx p).context = some (ctx.moveTo (wrappingAdd p 1)) := by
  simp only [moved, h.activeContext, setContext]

theorem reset_placed (h : Active ctx s) (length : ctx.tracks.vec.length ≤ vecMax) (p : Nat) :
    s.resetPlaybackToPosition (some p) =
      if keepsQueued s = true ∨ p < ctx.tracks.vec.length then
        (placed (moved s ctx p) (resetCurrent ctx.tracks.vec s p) (tracksBefore ctx.tracks.vec p)
          (s.player.nextTracks.takeWhile isQueue)).fillUpNextTracks.andThen
            fun s _ => (s.updateRestrictions, .ok ())
      else (moved s ctx p, .error (.canNotFindTrackInContext (some p) ctx.tracks.vec.length)) := by
  have loaded : s.getContext s.activeContext = .ok ctx := by
    simp [h.activeContext, getContext, h.context]
  have prevTracks : prevAt ctx.tracks.vec p = tracksBefore ctx.tracks.vec p := by
    rw [prevAt]
    split
    · rename_i first
      rw [first, tracksBefore_zero ctx.tracks.vec length]
    · rfl
  have kept : stays s = keepsQueued s := by
    rw [stays, active_isSkipTrack h, Bool.or_false]
    rfl
  rw [reset_loaded loaded, kept, prevTracks, resetCurrent]
  by_cases queued : keepsQueued s = true
  · rw [if_pos queued, if_pos (.inl queued), if_pos queued]
  · rw [if_neg queued, if_neg queued]
    cases found : ctx.tracks.vec[p]? with
    | none =>
      rw [if_neg (not_or.mpr ⟨queued, Nat.not_lt.mpr (List.getElem?_eq_none_iff.mp found)⟩)]
      rfl
    | some t =>
      rw [if_pos (.inr (List.getElem?_eq_some_iff.mp found).1)]
      rfl

end Reset

theorem reset_steps (h : DefaultContext tracks s) (length : tracks.length ≤ vecMax) {n : Nat}
    (position : newIndex.getD 0 = n) (done : s.resetPlaybackToPosition newIndex = (s', .ok ())) :
    ∃ s₂ s₃, Plain tracks s₂ ∧ cursor s₂ = wrappingAdd n 1 ∧
      (keepsQueued s = false → n < tracks.length) ∧
      (placed s₂ (resetCurrent tracks s n) (tracksBefore tracks n)
        (s.player.nextTracks.takeWhile isQueue)).fillUpNextTracks = (s₃, .ok ()) ∧
      s' = s₃.updateRestrictions := by
  obtain ⟨ctx, loaded, rfl, unmarked⟩ := h.context
  have active : Active ctx s := ⟨loaded, h.activeContext, unmarked⟩
  have context := moved_context (p := n) active
  have here : s.resetPlaybackToPosition (some n) = (s', .ok ()) := position ▸ done
  have plain : Plain ctx.tracks.vec (moved s ctx n) := by
    simp only [moved, h.activeContext]
    exact ⟨⟨⟨_, rfl, rfl, unmarked⟩, h.autoplayContext, h.activeContext, h.repeatContext⟩,
      h.activeContext⟩
  rw [reset_placed active length] at here
  split at here
  · next inside =>
    obtain ⟨s₃, ⟨⟩, hfill, restricted⟩ := Reply.andThen_ok here
    refine ⟨moved s ctx n, s₃, plain, ?_, fun other => ?_, hfill, (Prod.mk.inj restricted).1.symm⟩
    · simp [cursor, context, StateContext.moveTo]
    · exact inside.resolve_left (by simp [other])
  · cases here

theorem reset_spec (default : DefaultTracks tracks) (h : DefaultContext tracks s)
    (length : tracks.length ≤ vecMax) {n : Nat} (position : newIndex.getD 0 = n)
    (done : s.resetPlaybackToPosition newIndex = (s', .ok ())) :
    Playing tracks s' ∧ (keepsQueued s = false → n < tracks.length) ∧
      s'.player.prevTracks = tracksBefore tracks n ∧
      upcoming tracks s' = (if keepsQueued s then [] else avail tracks[n]?.toList) ++
        avail (tracks.drop (wrappingAdd n 1)) := by
  obtain ⟨s₂, s₃, plain, hcursor, inside, hfill, rfl⟩ := reset_steps h length position done
  have queue : ∀ t ∈ s.player.nextTracks.takeWhile isQueue, t.isQueue = true :=
    fun t ht => List.mem_takeWhile_imp ht
  have playing : Playing tracks (placed s₂ (resetCurrent tracks s n) (tracksBefore tracks n)
      (s.player.nextTracks.takeWhile isQueue)) := by
    refine ⟨placed_plain plain _ _ _, ?_⟩
    intro t ht
    simp only [placed, setPlayer, List.mem_append] at ht
    rcases ht with (before | current) | next
    · exact noAutoplay_default default (tracksBefore_mem before)
    · exact resetCurrent_noAutoplay default current
    · exact noAutoplay_queue (queue t next)
  obtain ⟨s₃', hfill', fills⟩ := fillUp_plain playing.plain
  obtain ⟨rfl, -⟩ := Prod.mk.inj (hfill.symm.trans hfill')
  obtain ⟨playing', same⟩ := fills_playing default playing fills
  have restricted := sameWindow_updateRestrictions s₃
  refine ⟨playing_of_sameWindow restricted playing', inside, fills.prev_eq, ?_⟩
  rw [upcoming_of_sameWindow tracks restricted, same, upcoming_placed, avail_queue queue,
    List.append_nil, avail_resetCurrent, hcursor]

theorem avail_drop_suffix (tracks : List ProvidedTrack) (k : Nat) :
    avail (tracks.drop k) <:+ avail tracks := by
  refine ⟨avail (tracks.take k), ?_⟩
  rw [← avail_append, List.take_append_drop]

theorem wrappingAdd_inside (length : tracks.length ≤ vecMax) {n : Nat}
    (inside : n ≤ tracks.length) : wrappingAdd n 1 = n + 1 := by
  simp only [wrappingAdd, usizeSize, vecMax] at length ⊢
  omega

theorem avail_from (tracks : List ProvidedTrack) (n : Nat) :
    avail tracks[n]?.toList ++ avail (tracks.drop (n + 1)) = avail (tracks.drop n) := by
  rw [← avail_append, ← List.drop_eq_getElem?_toList_append]

theorem reset_suffix (default : DefaultTracks tracks) (h : DefaultContext tracks s)
    (length : tracks.length ≤ vecMax) (done : s.resetPlaybackToPosition newIndex = (s', .ok ())) :
    Playing tracks s' ∧ upcoming tracks s' <:+ avail tracks := by
  obtain ⟨playing, inside, -, window⟩ := reset_spec default h length rfl done
  refine ⟨playing, ?_⟩
  rw [window]
  by_cases queued : keepsQueued s = true
  · rw [if_pos queued]
    exact avail_drop_suffix tracks _
  · have here := inside (by simpa using queued)
    rw [if_neg queued, wrappingAdd_inside length (Nat.le_of_lt here), avail_from]
    exact avail_drop_suffix tracks _

/-- A queued track stays the current one in the place of a track that can be played. -/
def leavesOut (tracks : List ProvidedTrack) (s : ConnectState) (newIndex : Option Nat) : Bool :=
  keepsQueued s && tracks[newIndex.getD 0]?.any ProvidedTrack.isContext

theorem reset_chained (default : DefaultTracks tracks) (h : DefaultContext tracks s)
    (length : tracks.length ≤ vecMax) (bound : newIndex.getD 0 < usizeSize)
    (done : s.resetPlaybackToPosition newIndex = (s', .ok ()))
    (whole : leavesOut tracks s newIndex = false) : Playing tracks s' ∧ Chained tracks s' := by
  obtain ⟨playing, -, prev, window⟩ := reset_spec default h length rfl done
  refine ⟨playing, ?_⟩
  have current : upcoming tracks s' = avail tracks[newIndex.getD 0]?.toList ++
      avail (tracks.drop (wrappingAdd (newIndex.getD 0) 1)) := by
    rw [window]
    by_cases queued : keepsQueued s = true
    · have gone : avail tracks[newIndex.getD 0]?.toList = [] := by
        simp only [leavesOut, queued, Bool.true_and] at whole
        cases found : tracks[newIndex.getD 0]? with
        | none => rfl
        | some t =>
          rw [found] at whole
          exact avail_eq_nil (by simpa using whole)
      rw [if_pos queued, gone]
    · rw [if_neg queued]
  generalize newIndex.getD 0 = n at bound prev current
  by_cases inside : n ≤ tracks.length
  · obtain ⟨front, split⟩ := tracksBefore_suffix tracks n inside length
    refine ⟨avail front, ?_⟩
    rw [current, wrappingAdd_inside length inside, avail_from, prev, ← avail_append, split,
      ← avail_append, List.take_append_drop]
  · -- the position may wrap around to the start of the context
    have beyond : tracks.length < n := by omega
    have absent : tracks[n]? = none := List.getElem?_eq_none (Nat.le_of_lt beyond)
    obtain ⟨front, split⟩ := avail_drop_suffix tracks (wrappingAdd n 1)
    refine ⟨front, ?_⟩
    rw [current, prev, tracksBefore_beyond tracks n beyond bound, absent, ← split]
    simp

/-- The tracks that are still to be played are those of an end of the context. -/
theorem upcoming_is_suffix {tracks : List ProvidedTrack} (default : DefaultTracks tracks)
    (length : tracks.length ≤ vecMax) {s s' : ConnectState} (h : DefaultContext tracks s)
    (newIndex : Option Nat) (bound : newIndex.getD 0 < usizeSize)
    (reset : s.resetPlaybackToPosition newIndex = (s', .ok ())) (ops : List Op)
    (kept : Along apply (fun s op => losesTrack s op = false) s' ops)
    (forward : leavesOut tracks s newIndex = true → .prevTrack ∉ ops) :
    ∃ k, upcoming tracks (run apply s' ops) = avail (tracks.drop k) := by
  apply suffix_avail
  by_cases whole : leavesOut tracks s newIndex = false
  · have start := reset_chained default h length bound reset whole
    have chained := @run_invariant _ _ _ _ (fun s => Playing tracks s ∧ Chained tracks s)
      (fun _ op inv => apply_chained default inv op) s' ops start kept
    exact chained_suffix chained.2
  · have start := reset_suffix default h length reset
    have noPrev := forward (by simpa using whole)
    have good : Along apply (fun s op => losesTrack s op = false ∧ op ≠ .prevTrack) s' ops := by
      rw [along_iff] at kept ⊢
      intro front op back split
      refine ⟨kept front op back split, ?_⟩
      rintro rfl
      exact noPrev (split ▸ by simp)
    have ending := @run_invariant _ _ _ _
      (fun s => Playing tracks s ∧ upcoming tracks s <:+ avail tracks)
      (fun _ op inv => apply_suffix default inv op) s' ops start good
    exact ending.2

def playlist (n : Nat) : List ProvidedTrack :=
  (List.range n).map fun i => ⟨toString i, "", [], .context⟩

def queuedTrack : ProvidedTrack := ⟨"queued", "q0", [], .queue⟩

/-- A context has been loaded; nothing has been played from it. -/
def loaded (tracks : List ProvidedTrack) (track : Option ProvidedTrack) : ConnectState where
  player := {
    track := track, prevTracks := [], nextTracks := [], index := none
    options := ⟨false, false, false⟩, restrictions := none, contextRestrictions := none
    contextMetadata := [], contextUri := "", contextUrl := "", isPlaying := true,
    isPaused := false, isBuffering := false }
  unavailableUri := []
  queueCount := 0
  activeContext := .default
  fillUpContext := .default
  context := some ⟨.ofVec tracks, [], none, ⟨0, 0⟩⟩
  transferShuffle := none
  autoplayContext := none

/-- Playback starts at a position of a playlist. -/
def startedAt (tracks : List ProvidedTrack) (track : Option ProvidedTrack) (n : Nat) :
    ConnectState :=
  ((loaded tracks track).resetPlaybackToPosition (some n)).1

theorem loaded_default (tracks : List ProvidedTrack) (track : Option ProvidedTrack) :
    DefaultContext tracks (loaded tracks track) :=
  ⟨⟨_, rfl, rfl, rfl⟩, rfl, rfl, rfl⟩

theorem playlist_default (n : Nat) : DefaultTracks (playlist n) := by
  intro t ht
  simp only [playlist, List.mem_map] at ht
  obtain ⟨i, -, rfl⟩ := ht
  exact Or.inl rfl

theorem shortPlaylist_suffix :
    let ops := [.nextTrack, .prevTrack, .prevTrack, .addToQueue queuedTrack, .clearQueue]
    ∃ k, upcoming (playlist 3) (run apply (startedAt (playlist 3) none 1) ops) =
      avail ((playlist 3).drop k) :=
  upcoming_is_suffix (playlist_default 3) (by decide) (loaded_default _ none)
    (some 1) (by decide) rfl _ ⟨rfl, rfl, rfl, rfl, rfl, trivial⟩ (by decide)

/-- Going back in a context of more than eighty tracks behind the current one
loses the last of the next tracks. -/
theorem longPlaylist_loses_track :
    ¬ ∃ k, upcoming (playlist 82) (run apply (startedAt (playlist 82) none 1) [.prevTrack]) =
      avail ((playlist 82).drop k) := by
  rintro ⟨k, same⟩
  have length : (upcoming (playlist 82)
      (run apply (startedAt (playlist 82) none 1) [.prevTrack])).length = 81 := by decide +kernel
  have first : (upcoming (playlist 82)
      (run apply (startedAt (playlist 82) none 1) [.prevTrack])).head? = (playlist 82).head? := by
    rfl
  rw [same] at length first
  match k with
  | 0 => exact absurd length (by decide +kernel)
  | 1 => exact absurd first (by decide +kernel)
  | k + 2 =>
    have short : (avail ((playlist 82).drop (k + 2))).length ≤
        ((playlist 82).drop (k + 2)).length :=
      List.length_filter_le ..
    simp only [playlist, List.length_drop, List.length_map, List.length_range] at short length
    omega

end ContextRuns
