import SqueezeboxConnect.ConnectDeck

/-!
# Limits of the lists

Every operation on the Connect state keeps the lists around the current track
within their limits, save for one: a queue that another device sends is taken
over at any length.
-/

namespace ListLimits

open Connect ConnectState ContextWindow ConnectDeck Runs

structure Bounded (s : ConnectState) : Prop where
  next : s.player.nextTracks.length ≤ SPOTIFY_MAX_NEXT_TRACKS_SIZE
  prev : s.player.prevTracks.length ≤ SPOTIFY_MAX_PREV_TRACKS_SIZE

inductive Op where
  | nextTrack
  | prevTrack
  | addToQueue (track : ProvidedTrack)
  | handleSetQueue (setQueue : SetQueueCommand)
  | clearQueue
  | markUnavailable (id : SpotifyUri)
  | handleShuffle (enabled : Bool) (newSeed : Nat)
  | handleSetRepeatContext (enabled : Bool)
  | resetPlaybackToPosition (newIndex : Option Nat)
  | finishTransfer (transfer : TransferState) (newSeed : Nat) (uuid : Nat → String)
  | updateContext (context : Context) (ty : ContextType) (uuid : Nat → Nat → String)

variable (smallRng : Nat → Rng)

def apply (s : ConnectState) : Op → ConnectState
  | .nextTrack => s.nextTrack.1
  | .prevTrack => s.prevTrack.1
  | .addToQueue track => s.addToQueue track
  | .handleSetQueue setQueue => s.handleSetQueue setQueue
  | .clearQueue => s.clearQueue.1
  | .markUnavailable id => (s.markUnavailable id).1
  | .handleShuffle enabled newSeed => (s.handleShuffle smallRng enabled newSeed).1
  | .handleSetRepeatContext enabled => (s.handleSetRepeatContext enabled).1
  | .resetPlaybackToPosition newIndex => (s.resetPlaybackToPosition newIndex).1
  | .finishTransfer transfer newSeed uuid => (s.finishTransfer smallRng transfer newSeed uuid).1
  | .updateContext context ty uuid => (s.updateContext context ty uuid).1

/-- The lists another device sends are within the limits. -/
def Fits : Op → Prop
  | .handleSetQueue setQueue =>
    setQueue.nextTracks.length ≤ SPOTIFY_MAX_NEXT_TRACKS_SIZE ∧
      setQueue.prevTracks.length ≤ SPOTIFY_MAX_PREV_TRACKS_SIZE
  | _ => True

variable {s s' : ConnectState}

section

variable (h : Bounded s)
include h

theorem bounded_of_same (same : SameTracks s s') : Bounded s' := by
  constructor
  · rw [same.next_eq]
    exact h.next
  · rw [same.prev_eq]
    exact h.prev

theorem fillUpNextTracks_bounded : Bounded s.fillUpNextTracks.1 := by
  obtain ⟨added, fillUp, i, j, filled, -, room, -⟩ := fillUp_spec s
  have limit := h.next
  rw [filled]
  constructor
  · simp only [refilled, List.length_append]
    omega
  · exact h.prev

theorem nextTrack_bounded : Bounded s.nextTrack.1 := by
  obtain ⟨newTrack, passed, rest, added, moves⟩ := nextTrack_spec s
  have limit := h.next
  have room := moves.room
  rw [moves.takes.split] at limit
  constructor
  · rw [moves.next]
    simp only [List.length_append] at limit ⊢
    omega
  · exact moves.takes.limit (length_retired h.prev)

theorem prevTrack_bounded : Bounded s.prevTrack.1 := by
  obtain ⟨newTrack, added, back⟩ := prevTrack_spec s
  have limit := h.prev
  have room := back.room
  have trimmed := List.length_take_le SPOTIFY_MAX_NEXT_TRACKS_SIZE (reinserted s)
  rw [back.prev] at limit
  constructor
  · rw [back.next, List.length_append]
    omega
  · simp only [List.length_append] at limit
    omega

theorem bounded_of_resets (resets : Resets s s') : Bounded s' := by
  constructor
  · rcases resets.next with same | ⟨added, next, -, room⟩
    · rw [same]
      exact h.next
    · have front : (s.player.nextTracks.takeWhile ProvidedTrack.isQueue).length ≤ _ :=
        (List.takeWhile_sublist _).length_le
      have limit := h.next
      rw [next, List.length_append]
      omega
  · rcases resets.prev with same | ⟨-, short⟩
    · rw [same]
      exact h.prev
    · exact short

theorem resetPlaybackToPosition_bounded (newIndex : Option Nat) :
    Bounded (s.resetPlaybackToPosition newIndex).1 :=
  bounded_of_resets h (resetPlaybackToPosition_spec s newIndex)

theorem addToQueue_bounded (track : ProvidedTrack) : Bounded (s.addToQueue track) := by
  constructor
  · exact List.length_take_le ..
  · exact h.prev

theorem clearQueue_bounded : Bounded s.clearQueue.1 := by
  apply fillUpNextTracks_bounded
  constructor
  · exact (List.length_filter_le ..).trans h.next
  · exact h.prev

theorem clearNextTracks_bounded : Bounded s.clearNextTracks := by
  constructor
  · exact (List.takeWhile_sublist _).length_le.trans h.next
  · exact h.prev

end

theorem length_claimQueued (tracks : List ProvidedTrack) (queueCount : Nat) :
    (claimQueued tracks queueCount).1.length = tracks.length := by
  induction tracks generalizing queueCount with
  | nil => rfl
  | cons t rest ih =>
    rw [claimQueued]
    split <;> simp [ih]

theorem handleSetQueue_bounded (setQueue : SetQueueCommand)
    (fits : Fits (.handleSetQueue setQueue)) :
    Bounded (s.handleSetQueue setQueue) := by
  constructor
  · change (((claimQueued _ _).1.map _).length ≤ _)
    rw [List.length_map, length_claimQueued]
    exact fits.1
  · exact fits.2

section

variable (h : Bounded s)
include h

theorem markUnavailable_bounded (id : SpotifyUri) : Bounded (s.markUnavailable id).1 := by
  apply fillUpNextTracks_bounded
  constructor
  · simp only [removeUri, List.length_map]
    exact (List.length_filter_le ..).trans h.next
  · simp only [removeUri, List.length_map]
    exact (List.length_filter_le ..).trans h.prev

theorem shuffle_bounded (seed : Nat) (initialTrack : String) :
    Bounded (s.shuffle smallRng seed initialTrack).1 := by
  have cleared : Bounded s.clearPrevTrack.clearNextTracks :=
    clearNextTracks_bounded ⟨h.next, Nat.zero_le _⟩
  have rewound := bounded_of_same cleared (resetContext_sameTracks _ .defaultIndex)
  simp only [shuffle]
  cases (s.clearPrevTrack.clearNextTracks.resetContext .defaultIndex).context with
  | none => exact rewound
  | some ctx => exact fillUpNextTracks_bounded ⟨rewound.next, rewound.prev⟩

theorem shuffleNew_bounded (newSeed : Nat) : Bounded (s.shuffleNew smallRng newSeed).1 := by
  rw [shuffleNew]
  cases s.validateShuffleAllowed with
  | error e => exact h
  | ok _ => exact shuffle_bounded smallRng h newSeed _

theorem shuffleRestore_bounded (shuffleState : ShuffleState) :
    Bounded (s.shuffleRestore smallRng shuffleState).1 := by
  rw [shuffleRestore]
  cases s.validateShuffleAllowed with
  | error e => exact h
  | ok _ => exact shuffle_bounded smallRng h _ _

theorem bounded_of_rewound (rewound : ∃ s₁, Rewinds s s₁ ∧ (s' = s₁ ∨ Resets s₁ s')) :
    Bounded s' := by
  obtain ⟨s₁, rewinds, reset⟩ := rewound
  have h₁ := bounded_of_same h rewinds.toSameTracks
  rcases reset with rfl | resets
  · exact h₁
  · exact bounded_of_resets h₁ resets

theorem handleShuffle_bounded (enabled : Bool) (newSeed : Nat) :
    Bounded (s.handleShuffle smallRng enabled newSeed).1 := by
  cases enabled with
  | true =>
    have toggled : Bounded (s.setShuffle true) := ⟨h.next, h.prev⟩
    exact shuffleNew_bounded smallRng toggled newSeed
  | false => exact bounded_of_rewound h (handleShuffle_off s smallRng newSeed)

theorem handleSetRepeatContext_bounded (enabled : Bool) :
    Bounded (s.handleSetRepeatContext enabled).1 :=
  bounded_of_rewound h (handleSetRepeatContext_spec s enabled)

theorem enqueueTransferred_bounded (transfer : TransferState) (uuid : Nat → String) :
    Bounded (s.enqueueTransferred transfer uuid) := by
  simp only [enqueueTransferred]
  generalize (if transfer.isPlayingQueue then transfer.queueTracks.zipIdx.drop 1
    else transfer.queueTracks.zipIdx) = tracks
  induction tracks generalizing s with
  | nil => exact h
  | cons track rest ih =>
    rw [List.foldl_cons]
    apply ih
    split
    · exact addToQueue_bounded h _
    · exact h

end

theorem setCurrentTrack_sameTracks (s : ConnectState) (index : Nat) :
    (s.setCurrentTrack index).1.player.nextTracks = s.player.nextTracks ∧
      (s.setCurrentTrack index).1.player.prevTracks = s.player.prevTracks := by
  rw [setCurrentTrack]
  repeat' split
  all_goals exact ⟨rfl, rfl⟩

/-- Shuffled again, or reset to the position. -/
theorem resumeTransfer_bounded (h : Bounded s) (currentIndex : Option Nat) (newSeed : Nat) :
    Bounded (if s.shufflingContext then
      (s.setCurrentTrack (currentIndex.getD 0)).andThen fun s _ =>
        match (s.setShuffle true).transferShuffle with
        | none => (s.setShuffle true).shuffleNew smallRng newSeed
        | some state => { s.setShuffle true with transferShuffle := none }.shuffleRestore smallRng
          state
      else s.resetPlaybackToPosition currentIndex).1 := by
  split
  · obtain ⟨next, prev⟩ := setCurrentTrack_sameTracks s (currentIndex.getD 0)
    have set : Bounded (s.setCurrentTrack (currentIndex.getD 0)).1 := ⟨next ▸ h.next, prev ▸ h.prev⟩
    apply andThen_state set
    intro _
    split
    · apply shuffleNew_bounded
      exact ⟨set.next, set.prev⟩
    · apply shuffleRestore_bounded
      exact ⟨set.next, set.prev⟩
  · exact resetPlaybackToPosition_bounded h _

theorem finishTransferIn_bounded (h : Bounded s) (ctx : StateContext) (transfer : TransferState)
    (track : ProvidedTrack) (newSeed : Nat) (uuid : Nat → String) :
    Bounded (s.finishTransferIn smallRng ctx transfer track newSeed uuid).1 := by
  simp only [finishTransferIn]
  generalize transferIndex ctx transfer track = currentIndex
  have h₁ : Bounded (if s.player.track.isNone then s.setTrack track else s) := by
    split
    · exact ⟨h.next, h.prev⟩
    · exact h
  generalize (if s.player.track.isNone then s.setTrack track else s) = s₁ at h₁
  have h₂ : Bounded (currentIndex.elim s₁ fun i => s₁.updateCurrentIndex fun _ => i) := by
    cases currentIndex with
    | none => exact h₁
    | some i => exact ⟨h₁.next, h₁.prev⟩
  have h₃ := enqueueTransferred_bounded h₂ transfer uuid
  generalize enqueueTransferred _ transfer uuid = s₃ at h₃
  have h₄ := resumeTransfer_bounded smallRng h₃ currentIndex newSeed
  apply andThen_state h₄
  exact fun _ => ⟨h₄.next, h₄.prev⟩

theorem finishTransfer_bounded (h : Bounded s) (transfer : TransferState) (newSeed : Nat)
    (uuid : Nat → String) : Bounded (s.finishTransfer smallRng transfer newSeed uuid).1 := by
  simp only [finishTransfer]
  split
  · exact h
  · rename_i track _
    generalize (if s.currentTrack.metadata.getBool "autoplay.is_autoplay" then ContextType.autoplay
      else .default) = contextTy
    have deck := sameDeck_setActiveContext s contextTy
    have active : Bounded { s.setActiveContext contextTy with fillUpContext := contextTy } :=
      bounded_of_same h ⟨deck.track_eq, deck.prev_eq, deck.next_eq⟩
    split
    · exact active
    · exact finishTransferIn_bounded smallRng active _ transfer track newSeed _

theorem fillContextFromPage_sameTracks (s : ConnectState) (page : ContextPage)
    (uuid : Nat → String) :
    (s.fillContextFromPage page uuid).1.player = s.player := by
  rw [fillContextFromPage]
  split <;> rfl

theorem loadPages_player (uuid : Nat → Nat → String) (pages : List ContextPage) (k : Nat)
    (s : ConnectState) : (loadPages uuid pages k s).1.player = s.player := by
  induction pages generalizing k s with
  | nil => rfl
  | cons page rest ih =>
    rw [loadPages]
    split
    · rw [ih, fillContextFromPage_sameTracks]
    · exact ih (k + 1) s

theorem keepPosition_bounded (h : Bounded s) (newContext : StateContext) :
    Bounded (s.keepPosition newContext).1 := by
  rw [keepPosition]
  cases s.findLastIndexInNewContext newContext with
  | none => exact h
  | some newIndex =>
    apply clearNextTracks_bounded
    cases newIndex with
    | ok i => exact ⟨h.next, h.prev⟩
    | error i => exact ⟨h.next, h.prev⟩

theorem replaceDefault_bounded (h : Bounded s) (context : Context) (page : ContextPage)
    (uuid : Nat → String) : Bounded (s.replaceDefault context page uuid) := by
  simp only [replaceDefault]
  split
  · have kept := keepPosition_bounded h (s.stateContextFromPage page context.metadata
      context.restrictions context.uri (some 0) none uuid)
    exact ⟨kept.next, kept.prev⟩
  · exact ⟨h.next, h.prev⟩

theorem updateContext_bounded (h : Bounded s) (context : Context) (ty : ContextType)
    (uuid : Nat → Nat → String) : Bounded (s.updateContext context ty uuid).1 := by
  simp only [updateContext]
  split
  · exact h
  · split
    · exact h
    · split
      · exact h
      · rename_i page _
        have replaced : Bounded (s.replaceContext context ty page (uuid 0)) := by
          cases ty with
          | default => exact replaceDefault_bounded h context page (uuid 0)
          | autoplay => exact ⟨h.next, h.prev⟩
        split
        · exact replaced
        · have loaded := loadPages_player uuid
            (context.pages.eraseP fun page => !page.tracks.isEmpty) 1
            (s.replaceContext context ty page (uuid 0))
          constructor
          · rw [loaded]
            exact replaced.next
          · rw [loaded]
            exact replaced.prev

theorem apply_bounded (h : Bounded s) (op : Op) (fits : Fits op) :
    Bounded (apply smallRng s op) := by
  cases op with
  | nextTrack => exact nextTrack_bounded h
  | prevTrack => exact prevTrack_bounded h
  | addToQueue track => exact addToQueue_bounded h track
  | handleSetQueue setQueue => exact handleSetQueue_bounded setQueue fits
  | clearQueue => exact clearQueue_bounded h
  | markUnavailable id => exact markUnavailable_bounded h id
  | handleShuffle enabled newSeed => exact handleShuffle_bounded smallRng h enabled newSeed
  | handleSetRepeatContext enabled => exact handleSetRepeatContext_bounded h enabled
  | resetPlaybackToPosition newIndex => exact resetPlaybackToPosition_bounded h newIndex
  | finishTransfer transfer newSeed uuid =>
    exact finishTransfer_bounded smallRng h transfer newSeed uuid
  | updateContext context ty uuid => exact updateContext_bounded h context ty uuid

/-- The lists stay within their limits as long as every queue that is sent does. -/
theorem bounded_of_fits (start : Bounded s) (ops : List Op) (fits : ∀ op ∈ ops, Fits op) :
    Bounded (run (apply smallRng) s ops) := by
  have keeps : ∀ s op, Bounded s → Fits op → Bounded (apply smallRng s op) :=
    fun _ op h => apply_bounded smallRng h op
  exact run_invariant keeps start (along_of_forall _ s fits)

def fresh : ConnectState where
  player := {
    track := none, prevTracks := [], nextTracks := [], index := none
    options := ⟨false, false, false⟩, restrictions := none, contextRestrictions := none
    contextMetadata := [], contextUri := "", contextUrl := "", isPlaying := false
    isPaused := false, isBuffering := false }
  unavailableUri := []
  queueCount := 0
  activeContext := .default
  fillUpContext := .default
  context := none
  transferShuffle := none
  autoplayContext := none

def sentTrack (uri : String) : ProvidedTrack := ⟨uri, uri, [], .context⟩

def sentQueue (next : Nat) : SetQueueCommand := ⟨List.replicate next (sentTrack "a"), []⟩

theorem smallQueue_bounded :
    Bounded (run (apply fun _ _ => 0) fresh [.handleSetQueue (sentQueue 3), .nextTrack]) :=
  bounded_of_fits _ ⟨Nat.zero_le _, Nat.zero_le _⟩ _ (by
    intro op inside
    simp only [List.mem_cons, List.not_mem_nil, or_false] at inside
    rcases inside with rfl | rfl
    · exact ⟨by decide, by decide⟩
    · exact trivial)

/-- A queue of 81 tracks is taken over as it is. -/
theorem longQueue_not_bounded :
    ¬ Bounded (run (apply fun _ _ => 0) fresh [.handleSetQueue (sentQueue 81)]) := by
  intro h
  have limit := h.next
  revert limit
  decide +kernel

end ListLimits
