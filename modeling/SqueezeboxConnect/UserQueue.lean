import SqueezeboxConnect.ConnectDeck
import SqueezeboxConnect.ContextRuns

/-!
# The user queue

Queued tracks are next tracks with a provider of their own. The operations that
add one or clear the others take the queue to be what is at the front of the
next tracks; going back puts other tracks there.
-/

namespace UserQueue

open Connect ConnectState ContextWindow ConnectDeck Runs ProvidedTrack

inductive Op where
  | addToQueue (track : ProvidedTrack)
  | nextTrack
  | prevTrack
  | handleShuffle (enabled : Bool) (newSeed : Nat)
  | handleSetRepeatContext (enabled : Bool)
  | resetPlaybackToPosition (newIndex : Option Nat)

variable (smallRng : Nat → Rng)

def apply (s : ConnectState) : Op → ConnectState
  | .addToQueue track => s.addToQueue track
  | .nextTrack => s.nextTrack.1
  | .prevTrack => s.prevTrack.1
  | .handleShuffle enabled newSeed => (s.handleShuffle smallRng enabled newSeed).1
  | .handleSetRepeatContext enabled => (s.handleSetRepeatContext enabled).1
  | .resetPlaybackToPosition newIndex => (s.resetPlaybackToPosition newIndex).1

/-- The queued tracks among the next tracks. -/
def queue (s : ConnectState) : List ProvidedTrack :=
  s.player.nextTracks.filter ProvidedTrack.isQueue

/-- A state with what has been queued so far and which of it has become the current track. -/
structure Session where
  state : ConnectState
  added : List ProvidedTrack
  started : List ProvidedTrack

def added (s : ConnectState) : Op → List ProvidedTrack
  | .addToQueue track => [s.queued track]
  | _ => []

/-- The queued track that an operation has made the current one. -/
def started (s' : ConnectState) : Op → List ProvidedTrack
  | .nextTrack | .prevTrack => s'.player.track.toList.filter ProvidedTrack.isQueue
  | _ => []

def step (r : Session) (op : Op) : Session where
  state := apply smallRng r.state op
  added := r.added ++ added r.state op
  started := r.started ++ started (apply smallRng r.state op) op

def Session.start (s : ConnectState) : Session := ⟨s, queue s, []⟩

/-- What was queued has been started, in this order, or is still queued. -/
def Fifo (r : Session) : Prop := r.added = r.started ++ queue r.state

/-- The queued tracks are at the front of the next tracks. -/
def AtFront (s : ConnectState) : Prop :=
  queue s = s.player.nextTracks.takeWhile ProvidedTrack.isQueue

instance (s : ConnectState) : Decidable (AtFront s) := inferInstanceAs (Decidable (_ = _))

def Few (s : ConnectState) : Op → Prop
  | .addToQueue _ => (queue s).length + 1 < SPOTIFY_MAX_NEXT_TRACKS_SIZE
  | _ => True

/-- A track is only queued, and the next tracks only cleared, while the queue is at the
front; going back cuts no queued track off; there is a context to fill up from. -/
def Orderly (s : ConnectState) : Op → Prop
  | .nextTrack => Loaded s
  | .prevTrack => ∀ t ∈ (reinserted s).drop SPOTIFY_MAX_NEXT_TRACKS_SIZE, t.isQueue = false
  | _ => AtFront s

/-- Queued tracks are neither previous tracks nor in a context, and no delimiters. -/
structure Sound (s : ConnectState) : Prop where
  prev : ∀ t ∈ s.player.prevTracks, t.isQueue = false
  stocked : ∀ t ∈ stock s, t.isQueue = false
  next : ∀ t ∈ s.player.nextTracks, t.isQueue = true → t.isDelimiter = false

variable {s s' : ConnectState}

theorem drawn_isQueue (h : Sound s) {t : ProvidedTrack} (drawn : Drawn s t) :
    t.isQueue = false := by
  rcases drawn with ⟨iteration, rfl⟩ | ⟨inside, -⟩
  · rfl
  · exact h.stocked t inside

theorem filter_isQueue_eq_nil {tracks : List ProvidedTrack}
    (nothing : ∀ t ∈ tracks, t.isQueue = false) : tracks.filter isQueue = [] := by
  rw [List.filter_eq_nil_iff]
  intro t inside
  simp [nothing t inside]

theorem unavailable_isQueue {t : ProvidedTrack} (unavailable : t.isUnavailable = true) :
    t.isQueue = false := by
  simp only [isUnavailable, beq_iff_eq] at unavailable
  simp [isQueue, unavailable]

theorem kept_isQueue {t : ProvidedTrack} (kept : (t.isContext || t.isAutoplay) = true) :
    t.isQueue = false := by
  simp only [isContext, isAutoplay, Bool.or_eq_true, beq_iff_eq] at kept
  rcases kept with kept | kept <;> simp [isQueue, kept]

theorem passed_isQueue (h : Sound s) {t : ProvidedTrack} (inside : t ∈ s.player.nextTracks)
    (notPlayed : t.isDelimiter = true ∨ t.isUnavailable = true) : t.isQueue = false := by
  rcases notPlayed with delimiter | unavailable
  · by_contra queued
    have other := h.next t inside (by simpa using queued)
    rw [delimiter] at other
    cases other
  · exact unavailable_isQueue unavailable

theorem sound_next (h : Sound s) {nextTracks : List ProvidedTrack}
    (inside : ∀ t ∈ nextTracks, t ∈ s.player.nextTracks ∨ t.isQueue = false) :
    ∀ t ∈ nextTracks, t.isQueue = true → t.isDelimiter = false := by
  intro t here queued
  rcases inside t here with old | other
  · exact h.next t old queued
  · rw [other] at queued
    cases queued

theorem nextTrack_queue (h : Sound s) (loaded : Loaded s) :
    Sound s.nextTrack.1 ∧ queue s = started s.nextTrack.1 .nextTrack ++ queue s.nextTrack.1 := by
  obtain ⟨newTrack, passed, rest, added, moves⟩ := nextTrack_spec s
  have split := moves.takes.split
  have isPassed : ∀ t ∈ passed, t.isQueue = false := by
    intro t inside
    exact passed_isQueue h (by rw [split]; simp [inside]) (moves.takes.notPlayed t inside)
  have isAdded : ∀ t ∈ added, t.isQueue = false :=
    fun t inside => drawn_isQueue h (moves.drawn t inside)
  have played : s.nextTrack.1.player.track = newTrack := by
    rcases moves.track with played | ⟨-, missing, -⟩
    · exact played
    · exact absurd loaded missing
  refine ⟨⟨?_, ?_, ?_⟩, ?_⟩
  · intro t inside
    rcases moves.takes.prev t inside with old | ⟨inside, -⟩
    · rcases mem_retired old with old | ⟨-, kept⟩
      · exact h.prev t old
      · exact kept_isQueue kept
    · exact isPassed t inside
  · rw [stock_sameContexts moves.contexts]
    exact h.stocked
  · apply sound_next h
    intro t inside
    rw [moves.next] at inside
    rcases List.mem_append.mp inside with old | new
    · exact Or.inl (by rw [split]; simp [old])
    · exact Or.inr (isAdded t new)
  · simp only [queue, started, played, moves.next]
    rw [split, List.filter_append, List.filter_append, List.filter_append,
      filter_isQueue_eq_nil isPassed, filter_isQueue_eq_nil isAdded, List.append_nil]
    rfl

theorem prevTrack_queue (h : Sound s) (orderly : Orderly s .prevTrack) :
    Sound s.prevTrack.1 ∧ queue s = started s.prevTrack.1 .prevTrack ++ queue s.prevTrack.1 := by
  obtain ⟨newTrack, added, back⟩ := prevTrack_spec s
  have prev := h.prev
  rw [back.prev] at prev
  have isAdded : ∀ t ∈ added, t.isQueue = false :=
    fun t inside => drawn_isQueue h (back.drawn t inside)
  have isReturned : ∀ t ∈ lastDelimiter s ++
      (s.player.track.filter fun t => t.isContext || t.isAutoplay).toList, t.isQueue = false := by
    intro t inside
    rcases List.mem_append.mp inside with last | current
    · exact prev t (by simp [last])
    · exact kept_isQueue (Option.filter_eq_some_iff.mp (Option.mem_toList.mp current)).2
  have whole : queue s = (reinserted s).filter isQueue := by
    rw [reinserted, List.filter_append, filter_isQueue_eq_nil isReturned]
    rfl
  refine ⟨⟨?_, ?_, ?_⟩, ?_⟩
  · exact fun t inside => prev t (by simp [inside])
  · rw [stock_sameContexts back.contexts]
    exact h.stocked
  · apply sound_next h
    intro t inside
    rw [back.next] at inside
    rcases List.mem_append.mp inside with old | new
    · rcases List.mem_append.mp (List.mem_of_mem_take old) with returned | old
      · exact Or.inr (isReturned t returned)
      · exact Or.inl old
    · exact Or.inr (isAdded t new)
  · have notQueued : started s.prevTrack.1 .prevTrack = [] := by
      apply filter_isQueue_eq_nil
      intro t inside
      rcases back.track with played | lost
      · rw [played] at inside
        exact prev t (by simp [inside])
      · rw [lost] at inside
        cases inside
    have cut : ((reinserted s).take SPOTIFY_MAX_NEXT_TRACKS_SIZE).filter isQueue =
        (reinserted s).filter isQueue := by
      conv => rhs; rw [← List.take_append_drop SPOTIFY_MAX_NEXT_TRACKS_SIZE (reinserted s)]
      rw [List.filter_append, filter_isQueue_eq_nil orderly, List.append_nil]
    rw [notQueued, whole, queue, back.next, List.filter_append, filter_isQueue_eq_nil isAdded,
      List.append_nil, cut]
    rfl

theorem queued_isDelimiter (s : ConnectState) (track : ProvidedTrack) :
    (s.queued track).isDelimiter = false := by
  have letter : "delimiter".toList = 'd' :: "elimiter".toList := by decide +kernel
  have uid : (s.queued track).uid.toList = 'q' :: (toString s.queueCount).toList := by
    simp only [queued, String.toList_append]
    rfl
  rw [isDelimiter, letter, uid]
  rfl

section

variable (h : Sound s)
include h

theorem addToQueue_queue (track : ProvidedTrack) (front : AtFront s)
    (few : Few s (.addToQueue track)) :
    Sound (s.addToQueue track) ∧ queue (s.addToQueue track) = queue s ++ [s.queued track] := by
  let next := s.player.nextTracks
  have others : (next.dropWhile isQueue).filter isQueue = [] := by
    have split : queue s = next.takeWhile isQueue ++
        (next.dropWhile isQueue).filter isQueue := by
      have isQueue : ∀ t ∈ next.takeWhile isQueue, t.isQueue = true :=
        fun t inside => List.mem_takeWhile_imp inside
      rw [← List.filter_eq_self.mpr isQueue, ← List.filter_append, List.takeWhile_append_dropWhile]
      rfl
    rw [front] at split
    exact List.self_eq_append_right.mp split
  have room : (next.takeWhile isQueue ++ [s.queued track]).length ≤
      SPOTIFY_MAX_NEXT_TRACKS_SIZE := by
    rw [← front, List.length_append, List.length_singleton]
    exact Nat.le_of_lt few
  have next_eq : (s.addToQueue track).player.nextTracks =
      (next.takeWhile isQueue ++ [s.queued track]) ++
        (next.dropWhile isQueue).take (SPOTIFY_MAX_NEXT_TRACKS_SIZE -
          (next.takeWhile isQueue ++ [s.queued track]).length) := by
    change (insertQueued (s.queued track) next).take SPOTIFY_MAX_NEXT_TRACKS_SIZE = _
    rw [insertQueued, ← List.singleton_append, ← List.append_assoc, List.take_append,
      List.take_of_length_le room]
  refine ⟨⟨h.prev, h.stocked, ?_⟩, ?_⟩
  · intro t inside queued
    rw [next_eq] at inside
    simp only [List.mem_append, List.mem_singleton] at inside
    rcases inside with (old | rfl) | old
    · exact h.next t (List.takeWhile_subset _ old) queued
    · exact queued_isDelimiter s track
    · exact h.next t (List.dropWhile_subset _ (List.mem_of_mem_take old)) queued
  · have cut : ((next.dropWhile isQueue).take (SPOTIFY_MAX_NEXT_TRACKS_SIZE -
        (next.takeWhile isQueue ++ [s.queued track]).length)).filter
          isQueue = [] := by
      rw [List.filter_eq_nil_iff] at others ⊢
      exact fun t inside => others t (List.mem_of_mem_take inside)
    have isQueue : ∀ t ∈ next.takeWhile isQueue ++ [s.queued track],
        t.isQueue = true := by
      intro t inside
      rcases List.mem_append.mp inside with old | new
      · exact List.mem_takeWhile_imp old
      · rw [List.mem_singleton.mp new]
        rfl
    rw [queue, next_eq, List.filter_append, cut, List.append_nil, List.filter_eq_self.mpr isQueue,
      front]

/-- The queue is at the front of tracks that begin with it and go on with others. -/
theorem filter_front (front : AtFront s) {added : List ProvidedTrack}
    (drawn : ∀ t ∈ added, Drawn s t) :
    (s.player.nextTracks.takeWhile isQueue ++ added).filter isQueue =
      queue s := by
  have isAdded : ∀ t ∈ added, t.isQueue = false := fun t inside => drawn_isQueue h (drawn t inside)
  have isQueue : ∀ t ∈ s.player.nextTracks.takeWhile isQueue, t.isQueue = true :=
    fun t inside => List.mem_takeWhile_imp inside
  rw [List.filter_append, filter_isQueue_eq_nil isAdded, List.append_nil,
    List.filter_eq_self.mpr isQueue, front]

theorem cleared_next {added : List ProvidedTrack} (drawn : ∀ t ∈ added, Drawn s t) :
    ∀ t ∈ s.player.nextTracks.takeWhile isQueue ++ added,
      t.isQueue = true → t.isDelimiter = false := by
  apply sound_next h
  intro t inside
  rcases List.mem_append.mp inside with old | new
  · exact Or.inl (List.takeWhile_subset _ old)
  · exact Or.inr (drawn_isQueue h (drawn t new))

theorem resets_queue (front : AtFront s) (resets : Resets s s') :
    Sound s' ∧ queue s' = queue s := by
  have prev : ∀ t ∈ s'.player.prevTracks, t.isQueue = false := by
    rcases resets.prev with same | ⟨inside, -⟩
    · exact same ▸ h.prev
    · exact fun t earlier => h.stocked t (inside t earlier)
  have stocked : ∀ t ∈ stock s', t.isQueue = false := by
    rw [stock_sameContexts resets.contexts]
    exact h.stocked
  rcases resets.next with same | ⟨added, next, drawn, -⟩
  · exact ⟨⟨prev, stocked, same ▸ h.next⟩, by rw [queue, same, queue]⟩
  · refine ⟨⟨prev, stocked, ?_⟩, ?_⟩
    · rw [next]
      exact cleared_next h drawn
    · rw [queue, next]
      exact filter_front h front drawn

theorem shuffles_queue (front : AtFront s) (shuffles : Shuffles s s') :
    Sound s' ∧ queue s' = queue s := by
  obtain ⟨added, next, drawn⟩ := shuffles.next
  refine ⟨⟨?_, ?_, ?_⟩, ?_⟩
  · rw [shuffles.prev]
    simp
  · exact fun t inside => h.stocked t (shuffles.stocked t inside)
  · rw [next]
    exact cleared_next h drawn
  · rw [queue, next]
    exact filter_front h front drawn

theorem rewinds_queue (rewinds : Rewinds s s') : Sound s' ∧ queue s' = queue s := by
  refine ⟨⟨?_, ?_, ?_⟩, ?_⟩
  · rw [rewinds.prev_eq]
    exact h.prev
  · exact fun t inside => h.stocked t (rewinds.stocked t inside)
  · rw [rewinds.next_eq]
    exact h.next
  · rw [queue, rewinds.next_eq, queue]

theorem rewound_queue (front : AtFront s) (result : ∃ s₁, Rewinds s s₁ ∧ (s' = s₁ ∨ Resets s₁ s')) :
    Sound s' ∧ queue s' = queue s := by
  obtain ⟨s₁, rewinds, rest⟩ := result
  obtain ⟨sound, same⟩ := rewinds_queue h rewinds
  rcases rest with rfl | resets
  · exact ⟨sound, same⟩
  · have front₁ : AtFront s₁ := by
      rw [AtFront, same, rewinds.next_eq]
      exact front
    obtain ⟨sound', same'⟩ := resets_queue sound front₁ resets
    exact ⟨sound', same'.trans same⟩

theorem apply_queue (op : Op) (few : Few s op) (orderly : Orderly s op) :
    Sound (apply smallRng s op) ∧
      queue s ++ added s op = started (apply smallRng s op) op ++ queue (apply smallRng s op) := by
  cases op with
  | addToQueue track =>
    obtain ⟨sound, same⟩ := addToQueue_queue h track orderly few
    exact ⟨sound, same.symm⟩
  | nextTrack =>
    obtain ⟨sound, same⟩ := nextTrack_queue h orderly
    exact ⟨sound, (List.append_nil _).trans same⟩
  | prevTrack =>
    obtain ⟨sound, same⟩ := prevTrack_queue h orderly
    exact ⟨sound, (List.append_nil _).trans same⟩
  | handleShuffle enabled newSeed =>
    have kept : Sound (s.handleShuffle smallRng enabled newSeed).1 ∧
        queue (s.handleShuffle smallRng enabled newSeed).1 = queue s := by
      cases enabled with
      | true =>
        rcases handleShuffle_on s smallRng newSeed with rewinds | shuffles
        · exact rewinds_queue h rewinds
        · exact shuffles_queue h orderly shuffles
      | false => exact rewound_queue h orderly (handleShuffle_off s smallRng newSeed)
    exact ⟨kept.1, (List.append_nil _).trans kept.2.symm⟩
  | handleSetRepeatContext enabled =>
    have kept := rewound_queue h orderly (handleSetRepeatContext_spec s enabled)
    exact ⟨kept.1, (List.append_nil _).trans kept.2.symm⟩
  | resetPlaybackToPosition newIndex =>
    have kept := resets_queue h orderly (resetPlaybackToPosition_spec s newIndex)
    exact ⟨kept.1, (List.append_nil _).trans kept.2.symm⟩

end

theorem step_fifo {r : Session} (h : Sound r.state ∧ Fifo r) (op : Op)
    (good : Few r.state op ∧ Orderly r.state op) :
    Sound (step smallRng r op).state ∧ Fifo (step smallRng r op) := by
  obtain ⟨sound, fifo⟩ := h
  obtain ⟨sound', moved⟩ := apply_queue smallRng sound op good.1 good.2
  refine ⟨sound', ?_⟩
  change r.added ++ added r.state op = (r.started ++ _) ++ queue (apply smallRng r.state op)
  rw [fifo, List.append_assoc, moved, List.append_assoc]

/-- In an orderly run queued tracks are started in the order they were queued in, and
leave the next tracks in no other way. -/
theorem fifo_of_orderly (s : ConnectState) (sound : Sound s) (ops : List Op)
    (few : Along (step smallRng) (fun r op => Few r.state op) (.start s) ops)
    (orderly : Along (step smallRng) (fun r op => Orderly r.state op) (.start s) ops) :
    Fifo (run (step smallRng) (.start s) ops) := by
  have keeps : ∀ r op, Sound r.state ∧ Fifo r → Few r.state op ∧ Orderly r.state op →
      Sound (step smallRng r op).state ∧ Fifo (step smallRng r op) :=
    fun _ op h good => step_fifo smallRng h op good
  have good : Along (step smallRng) (fun r op => Few r.state op ∧ Orderly r.state op)
      (.start s) ops := by
    rw [along_iff] at few orderly ⊢
    exact fun front op back split => ⟨few front op back split, orderly front op back split⟩
  have start : Sound (Session.start s).state ∧ Fifo (.start s) := ⟨sound, rfl⟩
  exact (run_invariant keeps start good).2

def secondOfThree : ConnectState := ContextRuns.startedAt (ContextRuns.playlist 3) none 1

def wish (uri : String) : ProvidedTrack := ⟨uri, "", [], .context⟩

theorem secondOfThree_sound : Sound secondOfThree := by
  constructor <;> decide +kernel

/-- Two tracks are queued and played. -/
theorem twoWishes_fifo :
    Fifo (run (step fun _ _ => 0) (.start secondOfThree)
      [.addToQueue (wish "x"), .addToQueue (wish "y"), .nextTrack, .nextTrack]) := by
  refine fifo_of_orderly _ _ secondOfThree_sound _ ⟨?_, ?_, ?_, ?_, trivial⟩ ⟨?_, ?_, ?_, ?_,
    trivial⟩
  · change _ < _; decide +kernel
  · change _ < _; decide +kernel
  · exact trivial
  · exact trivial
  · change _ = _; decide +kernel
  · change _ = _; decide +kernel
  · exact ⟨_, rfl⟩
  · exact ⟨_, rfl⟩

/-- A track that is queued behind one and after going back is played first, a reset
after going back drops the queue, and without a context the next track is lost. -/
theorem prevTrack_breaks_queue :
    ¬ Fifo (run (step fun _ _ => 0) (.start secondOfThree)
      [.addToQueue (wish "x"), .prevTrack, .addToQueue (wish "y"), .nextTrack]) ∧
    ¬ Fifo (run (step fun _ _ => 0) (.start secondOfThree)
      [.addToQueue (wish "x"), .prevTrack, .resetPlaybackToPosition (some 0)]) ∧
    ¬ Fifo (run (step fun _ _ => 0) (.start { secondOfThree with context := none })
      [.addToQueue (wish "x"), .nextTrack]) := by
  refine ⟨?_, ?_, ?_⟩
  · intro fifo
    exact absurd (congrArg List.head? fifo) (by decide +kernel)
  · intro fifo
    exact absurd (congrArg List.length fifo) (by decide +kernel)
  · intro fifo
    exact absurd (congrArg List.length fifo) (by decide +kernel)

end UserQueue
