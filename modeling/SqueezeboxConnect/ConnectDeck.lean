import SqueezeboxConnect.ConnectCommands
import SqueezeboxConnect.ContextWindow

/-!
# Tracks around the current one

What the operations do to the previous tracks, the current track and the next
tracks, in any state: with or without contexts, repeat and autoplay, and also
where an operation fails half-way.
-/

namespace ConnectDeck

open Connect ConnectState ContextWindow

def stored (ctx : Option StateContext) : List ProvidedTrack :=
  ctx.elim [] fun ctx => ctx.tracks.vec

def stock (s : ConnectState) : List ProvidedTrack := stored s.context ++ stored s.autoplayContext

/-- A track that filling up may add. -/
def Drawn (s : ConnectState) (t : ProvidedTrack) : Prop :=
  (∃ iteration, t = newDelimiter iteration) ∨ t ∈ stock s ∧ t.isUnavailable = false

/-- The context to fill up from is loaded. -/
def Loaded (s : ConnectState) : Prop := ∃ ctx, s.getContext s.fillUpContext = .ok ctx

/-- The state with further next tracks and with other cursors. -/
def refilled (s : ConnectState) (added : List ProvidedTrack) (fillUp : ContextType) (i j : Nat) :
    ConnectState :=
  { s with
    player := { s.player with nextTracks := s.player.nextTracks ++ added }
    fillUpContext := fillUp
    context := s.context.map (StateContext.moveTo · i)
    autoplayContext := s.autoplayContext.map (StateContext.moveTo · j) }

@[simp] theorem stored_moveTo (ctx : Option StateContext) (i : Nat) :
    stored (ctx.map (StateContext.moveTo · i)) = stored ctx := by
  cases ctx <;> rfl

@[simp] theorem stock_refilled (s : ConnectState) (added : List ProvidedTrack)
    (fillUp : ContextType) (i j : Nat) : stock (refilled s added fillUp i j) = stock s := by
  simp [stock, refilled]

variable {s s' : ConnectState} {t : ProvidedTrack} {ctx : StateContext}
  {prevTracks : List ProvidedTrack}

theorem newDelimiter_uid (i : Nat) : (newDelimiter i).uid = "delimiter" ++ toString i := by
  have text : toString "delimiter" = "delimiter" := rfl
  simp [newDelimiter, text]

theorem newDelimiter_isDelimiter (i : Nat) : (newDelimiter i).isDelimiter = true := by
  rw [ProvidedTrack.isDelimiter, newDelimiter_uid, String.toList_append, List.isPrefixOf_iff_prefix]
  exact List.prefix_append ..

theorem moveTo_self (ctx : Option StateContext) :
    ∃ i, ctx.map (StateContext.moveTo · i) = ctx := by
  cases ctx with
  | none => exact ⟨0, rfl⟩
  | some ctx => exact ⟨ctx.index.track, rfl⟩

theorem refilled_self (s : ConnectState) : ∃ i j, s = refilled s [] s.fillUpContext i j := by
  obtain ⟨i, hi⟩ := moveTo_self s.context
  obtain ⟨j, hj⟩ := moveTo_self s.autoplayContext
  refine ⟨i, j, ?_⟩
  simp only [refilled, hi, hj, List.append_nil]

theorem refilled_refilled (s : ConnectState) (added more : List ProvidedTrack)
    (fillUp fillUp' : ContextType) (i j i' j' : Nat) :
    refilled (refilled s added fillUp i j) more fillUp' i' j' =
      refilled s (added ++ more) fillUp' i' j' := by
  cases hs : s.context <;> cases ha : s.autoplayContext <;>
    simp [refilled, StateContext.moveTo, hs, ha]

theorem updateContextIndex_refilled (s : ConnectState) (ty : ContextType) (n : Nat) :
    ∃ i j, (s.updateContextIndex ty n).1 = refilled s [] s.fillUpContext i j := by
  obtain ⟨i, hi⟩ := moveTo_self s.context
  obtain ⟨j, hj⟩ := moveTo_self s.autoplayContext
  cases ty with
  | default =>
    cases hs : s.context with
    | none =>
      obtain ⟨i, j, same⟩ := refilled_self s
      exact ⟨i, j, by simpa [updateContextIndex, getContext, hs] using same⟩
    | some ctx =>
      refine ⟨n, j, ?_⟩
      simp only [updateContextIndex, getContext, hs, Option.elim, setContext, refilled, hj,
        List.append_nil]
      rfl
  | autoplay =>
    cases ha : s.autoplayContext with
    | none =>
      obtain ⟨i, j, same⟩ := refilled_self s
      exact ⟨i, j, by simpa [updateContextIndex, getContext, ha] using same⟩
    | some ctx =>
      refine ⟨i, n, ?_⟩
      simp only [updateContextIndex, getContext, ha, Option.elim, setContext, refilled, hi,
        List.append_nil]
      rfl

variable {ty : ContextType}

theorem context_of_loaded (loaded : s.getContext ty = .ok ctx) :
    s.context = some ctx ∨ s.autoplayContext = some ctx := by
  cases ty with
  | default =>
    cases hs : s.context with
    | none => simp [getContext, hs] at loaded
    | some ctx' => exact .inl (by simpa [getContext, hs] using loaded)
  | autoplay =>
    cases ha : s.autoplayContext with
    | none => simp [getContext, ha] at loaded
    | some ctx' => exact .inr (by simpa [getContext, ha] using loaded)

/-- The tracks of a loaded context are among those of both. -/
theorem sublist_stock (loaded : s.getContext ty = .ok ctx) : ctx.tracks.vec.Sublist (stock s) := by
  rcases context_of_loaded loaded with hs | ha
  · simp [stock, stored, hs]
  · simp [stock, stored, ha]

theorem mem_stock (loaded : s.getContext ty = .ok ctx) (inside : t ∈ ctx.tracks.vec) :
    t ∈ stock s :=
  (sublist_stock loaded).subset inside

theorem refilled_addNext (s : ConnectState) (t : ProvidedTrack) (fillUp : ContextType) (i j : Nat) :
    addNext (refilled s [] fillUp i j) [t] = refilled s [t] fillUp i j := by
  simp [addNext, setPlayer, refilled]

theorem nextFill_refilled {c c' : FillCursor} (next : NextFill s ctx c (s', .ok (some t, c')))
    (loaded : s.getContext s.fillUpContext = .ok ctx) :
    (∃ fillUp i j, s' = refilled s [] fillUp i j) ∧ Loaded s' ∧ Drawn s t := by
  obtain ⟨i, j, same⟩ := refilled_self s
  cases next with
  | track _ found next =>
    have stays : t ∈ ahead s ctx.tracks.vec c := by simp [next]
    have available := (List.mem_filter.mp stays).2
    simp only [passes, Bool.not_eq_true', Bool.or_eq_false_iff] at available
    exact ⟨⟨_, i, j, same⟩, ⟨ctx, loaded⟩,
      .inr ⟨mem_stock loaded (List.mem_of_getElem? found), available.1⟩⟩
  | again => exact ⟨⟨_, i, j, same⟩, ⟨ctx, loaded⟩, .inl ⟨_, rfl⟩⟩
  | @autoplay autoplay n _ _ _ hs ha =>
    refine ⟨⟨.autoplay, n, autoplay.index.track, ?_⟩, ⟨autoplay, ?_⟩, .inl ⟨_, rfl⟩⟩
    · simp [refilled, StateContext.moveTo, hs, ha]
    · simp [getContext, ha]

/-- A run of the loop: it stops where there is no room or nothing more comes, and otherwise
adds what it finds next. -/
inductive Feeds : Nat → ConnectState → StateContext → FillCursor → List ProvidedTrack →
    ConnectState → StateContext → FillCursor → Prop
  | full {s : ConnectState} {ctx : StateContext} {c : FillCursor} : Feeds 0 s ctx c [] s ctx c
  | ends {room : Nat} {s : ConnectState} {ctx : StateContext} {c : FillCursor}
      (nothing : ahead s ctx.tracks.vec c = []) (once : s.repeatContext = false)
      (last : s.fillUpContext = .default → s.autoplayContext = none) :
      Feeds (room + 1) s ctx c [] s ctx ⟨max c.newIndex ctx.tracks.vec.length, c.iteration⟩
  | adds {room : Nat} {s s₁ s' : ConnectState} {ctx ctx₁ ctx' : StateContext}
      {c c₁ c' : FillCursor} {t : ProvidedTrack} {added : List ProvidedTrack}
      (next : NextFill s ctx c (s₁, .ok (some t, c₁)))
      (loaded : s₁.getContext s₁.fillUpContext = .ok ctx₁)
      (rest : Feeds room (addNext s₁ [t]) ctx₁ c₁ added s' ctx' c') :
      Feeds (room + 1) s ctx c (t :: added) s' ctx' c'

theorem fillLoop_feeds (room : Nat) (loaded : s.getContext s.fillUpContext = .ok ctx)
    (c : FillCursor) :
    ∃ added s' ctx' c', fillLoop room s c = (s', .ok c') ∧
      s'.getContext s'.fillUpContext = .ok ctx' ∧ Feeds room s ctx c added s' ctx' c' := by
  induction room generalizing s ctx c with
  | zero => exact ⟨[], s, ctx, c, rfl, loaded, .full⟩
  | succ room ih =>
    have next := nextFill_cases loaded c
    rw [fillLoop]
    generalize s.nextFill c = reply at next
    have added : ∀ s₁ t c₁, reply = (s₁, .ok (some t, c₁)) → ∃ added s' ctx' c',
        fillLoop room (addNext s₁ [t]) c₁ = (s', .ok c') ∧
          s'.getContext s'.fillUpContext = .ok ctx' ∧
          Feeds (room + 1) s ctx c (t :: added) s' ctx' c' := by
      rintro s₁ t c₁ rfl
      obtain ⟨-, ⟨ctx₁, loaded₁⟩, -⟩ := nextFill_refilled next loaded
      obtain ⟨added, s', ctx', c', loop, loaded', feeds⟩ := ih (s := addNext s₁ [t]) loaded₁ c₁
      exact ⟨added, s', ctx', c', loop, loaded', .adds next loaded₁ feeds⟩
    cases next with
    | ends nothing once last => exact ⟨[], s, ctx, _, rfl, loaded, .ends nothing once last⟩
    | track | again | autoplay =>
      obtain ⟨more, s', ctx', c', loop, loaded', feeds⟩ := added _ _ _ rfl
      exact ⟨_, s', ctx', c', loop, loaded', feeds⟩

variable {added : List ProvidedTrack}

theorem feeds_refilled {room : Nat} {ctx' : StateContext} {c c' : FillCursor}
    (feeds : Feeds room s ctx c added s' ctx' c') (loaded : s.getContext s.fillUpContext = .ok ctx)
    :
    (∃ fillUp i j, s' = refilled s added fillUp i j) ∧ (∀ t ∈ added, Drawn s t) ∧
      added.length ≤ room := by
  induction feeds with
  | @full s | @ends _ s =>
    obtain ⟨i, j, same⟩ := refilled_self s
    exact ⟨⟨_, i, j, same⟩, by simp, by simp⟩
  | @adds room s _ _ _ _ _ _ _ _ t added next loaded₁ rest ih =>
    obtain ⟨⟨fillUp, i, j, rfl⟩, -, drawn⟩ := nextFill_refilled next loaded
    obtain ⟨⟨fillUp', i', j', state⟩, more, short⟩ := ih loaded₁
    rw [refilled_addNext] at state more
    refine ⟨⟨fillUp', i', j', ?_⟩, List.forall_mem_cons.mpr ⟨drawn, ?_⟩, Nat.succ_le_succ short⟩
    · rw [state, refilled_refilled, List.singleton_append]
    · simpa only [Drawn, stock_refilled] using more

theorem setContext_refilled (loaded : s.getContext ty = .ok ctx) (n : Nat) :
    ∃ i j, s.setContext ty (ctx.moveTo n) = refilled s [] s.fillUpContext i j := by
  obtain ⟨i, j, same⟩ := updateContextIndex_refilled s ty n
  refine ⟨i, j, ?_⟩
  rw [← same, updateContextIndex, loaded]
  rfl

/-- Filling up runs the loop and keeps the cursor it ends with. -/
theorem fillUp_feeds (loaded : s.getContext s.fillUpContext = .ok ctx) :
    ∃ added s' ctx' c', s.fillUpNextTracks =
        (s'.setContext s'.fillUpContext (ctx'.moveTo c'.newIndex), .ok ()) ∧
      (∃ fillUp i j, s.fillUpNextTracks = (refilled s added fillUp i j, .ok ())) ∧
      s'.getContext s'.fillUpContext = .ok ctx' ∧
      Feeds (SPOTIFY_MAX_NEXT_TRACKS_SIZE - s.player.nextTracks.length) s ctx
        ⟨ctx.index.track, ctx.index.page⟩ added s' ctx' c' := by
  obtain ⟨added, s', ctx', c', loop, loaded', feeds⟩ := fillLoop_feeds
    (SPOTIFY_MAX_NEXT_TRACKS_SIZE - s.player.nextTracks.length) loaded
    ⟨ctx.index.track, ctx.index.page⟩
  have filled : s.fillUpNextTracks =
      (s'.setContext s'.fillUpContext (ctx'.moveTo c'.newIndex), .ok ()) := by
    simp only [fillUpNextTracks, loaded, loop, Reply.andThen, updateContextIndex, loaded']
    rfl
  refine ⟨added, s', ctx', c', filled, ?_, loaded', feeds⟩
  obtain ⟨⟨fillUp, i, j, rfl⟩, -⟩ := feeds_refilled feeds loaded
  obtain ⟨i', j', moved⟩ := setContext_refilled loaded' c'.newIndex
  refine ⟨fillUp, i', j', ?_⟩
  rw [filled, moved, refilled_refilled, List.append_nil]
  rfl

/-- The loop begins with the tracks ahead. -/
theorem feeds_ahead {room : Nat} {ctx' : StateContext} {c c' : FillCursor}
    (feeds : Feeds room s ctx c added s' ctx' c') (loaded : s.getContext s.fillUpContext = .ok ctx)
    :
    ∃ more, added = (ahead s ctx.tracks.vec c).take room ++ more := by
  induction feeds with
  | full => exact ⟨[], rfl⟩
  | ends nothing => exact ⟨[], by rw [nothing]; rfl⟩
  | adds next loaded' _ ih =>
    cases next with
    | track _ _ next =>
      obtain rfl := Except.ok.inj (loaded'.symm.trans loaded)
      obtain ⟨more, same⟩ := ih loaded
      exact ⟨more, by rw [same, next, List.take_succ_cons]; rfl⟩
    | again nothing | autoplay nothing => exact ⟨_, by rw [nothing]; rfl⟩

/-- Filling up adds tracks of the contexts and delimiters, and moves the cursors. It
fails only where the context is not loaded. -/
theorem fillUp_spec (s : ConnectState) :
    ∃ added fillUp i j, s.fillUpNextTracks.1 = refilled s added fillUp i j ∧
      (∀ t ∈ added, Drawn s t) ∧
      added.length ≤ SPOTIFY_MAX_NEXT_TRACKS_SIZE - s.player.nextTracks.length ∧
      (Loaded s → s.fillUpNextTracks.2 = .ok ()) := by
  cases loaded : s.getContext s.fillUpContext with
  | error e =>
    obtain ⟨i, j, same⟩ := refilled_self s
    rw [fillUpNextTracks, loaded]
    refine ⟨[], _, i, j, same, by simp, by simp, ?_⟩
    rintro ⟨ctx, ok⟩
    rw [loaded] at ok
    cases ok
  | ok ctx =>
    obtain ⟨added, s', ctx', c', -, ⟨fillUp, i, j, filled⟩, -, feeds⟩ := fillUp_feeds loaded
    obtain ⟨-, drawn, short⟩ := feeds_refilled feeds loaded
    rw [filled]
    exact ⟨added, fillUp, i, j, rfl, drawn, short, fun _ => rfl⟩

theorem fillUp_done (loaded : Loaded s) : s.fillUpNextTracks = (s.fillUpNextTracks.1, .ok ()) := by
  obtain ⟨-, -, -, -, -, -, -, succeeds⟩ := fillUp_spec s
  exact Prod.ext rfl (succeeds loaded)

theorem fillUp_missing (missing : ¬ Loaded s) : ∃ e, s.fillUpNextTracks = (s, .error e) := by
  cases found : s.getContext s.fillUpContext with
  | ok ctx => exact absurd ⟨ctx, found⟩ missing
  | error e => exact ⟨e, by simp only [fillUpNextTracks, found]⟩

theorem fillUp_loaded (loaded : Loaded s) : Loaded s.fillUpNextTracks.1 := by
  obtain ⟨ctx, ok⟩ := loaded
  obtain ⟨added, s', ctx', c', filled, -⟩ := fillUp_feeds ok
  rw [filled]
  cases fillUp : s'.fillUpContext with
  | default => exact ⟨_, by simp only [setContext, fillUp]; rfl⟩
  | autoplay => exact ⟨_, by simp only [setContext, fillUp]; rfl⟩

/-- The contexts are the same, up to their cursors. -/
structure SameContexts (s s' : ConnectState) : Prop where
  context : ∃ i, s'.context = s.context.map (StateContext.moveTo · i)
  autoplayContext : ∃ j, s'.autoplayContext = s.autoplayContext.map (StateContext.moveTo · j)

theorem sameContexts_refl (s : ConnectState) : SameContexts s s := by
  obtain ⟨i, hi⟩ := moveTo_self s.context
  obtain ⟨j, hj⟩ := moveTo_self s.autoplayContext
  exact ⟨⟨i, hi.symm⟩, ⟨j, hj.symm⟩⟩

theorem moveTo_moveTo (ctx : Option StateContext) (i i' : Nat) :
    (ctx.map (StateContext.moveTo · i)).map (StateContext.moveTo · i') =
      ctx.map (StateContext.moveTo · i') := by
  cases ctx <;> rfl

theorem sameContexts_trans {s'' : ConnectState} (h : SameContexts s s') (h' : SameContexts s' s'') :
    SameContexts s s'' := by
  obtain ⟨i, hi⟩ := h.context
  obtain ⟨j, hj⟩ := h.autoplayContext
  obtain ⟨i', hi'⟩ := h'.context
  obtain ⟨j', hj'⟩ := h'.autoplayContext
  constructor
  · exact ⟨i', by rw [hi', hi, moveTo_moveTo]⟩
  · exact ⟨j', by rw [hj', hj, moveTo_moveTo]⟩

theorem sameContexts_refilled (s : ConnectState) (added : List ProvidedTrack)
    (fillUp : ContextType) (i j : Nat) : SameContexts s (refilled s added fillUp i j) :=
  ⟨⟨i, rfl⟩, ⟨j, rfl⟩⟩

theorem sameContexts_of_eq (context : s'.context = s.context)
    (autoplay : s'.autoplayContext = s.autoplayContext) : SameContexts s s' := by
  have h := sameContexts_refl s
  exact ⟨context ▸ h.context, autoplay ▸ h.autoplayContext⟩

theorem stock_sameContexts (h : SameContexts s s') : stock s' = stock s := by
  obtain ⟨i, hi⟩ := h.context
  obtain ⟨j, hj⟩ := h.autoplayContext
  simp only [stock, hi, hj, stored_moveTo]

theorem drawn_sameContexts (h : SameContexts s s') (drawn : Drawn s' t) : Drawn s t := by
  rwa [Drawn, stock_sameContexts h] at drawn

theorem length_pushed (t : ProvidedTrack)
    (limit : prevTracks.length ≤ SPOTIFY_MAX_PREV_TRACKS_SIZE) :
    (pushed prevTracks t).length ≤ SPOTIFY_MAX_PREV_TRACKS_SIZE := by
  have limit' : prevTracks.length ≤ 10 := limit
  by_cases full : SPOTIFY_MAX_PREV_TRACKS_SIZE ≤ prevTracks.length
  · simp only [pushed, if_pos full, List.length_append, List.length_drop, List.length_singleton]
    change _ ≤ 10
    omega
  · simp only [pushed, if_neg full, List.length_append, List.length_singleton]
    change ¬ 10 ≤ _ at full
    change _ ≤ 10
    omega

/-- Which of the next tracks is taken, and what happens to those in front of it. -/
structure Takes (nextTracks prevTracks : List ProvidedTrack) (newTrack : Option ProvidedTrack)
    (passed rest prevTracks' : List ProvidedTrack) : Prop where
  split : nextTracks = passed ++ newTrack.toList ++ rest
  notPlayed : ∀ t ∈ passed, t.isDelimiter = true ∨ t.isUnavailable = true
  playable : ∀ t ∈ newTrack, t.isDelimiter = false ∧ t.isUnavailable = false
  ends : newTrack = none → rest = []
  prev : ∀ t ∈ prevTracks', t ∈ prevTracks ∨ t ∈ passed ∧ t.isDelimiter = true
  limit : prevTracks.length ≤ SPOTIFY_MAX_PREV_TRACKS_SIZE →
    prevTracks'.length ≤ SPOTIFY_MAX_PREV_TRACKS_SIZE

theorem length_joined (tracks : List ProvidedTrack)
    (limit : prevTracks.length ≤ SPOTIFY_MAX_PREV_TRACKS_SIZE) :
    (joined prevTracks tracks).length ≤ SPOTIFY_MAX_PREV_TRACKS_SIZE := by
  induction tracks generalizing prevTracks with
  | nil => exact limit
  | cons t rest ih => exact ih (length_pushed t limit)

theorem takeNextTrack_takes (nextTracks : List ProvidedTrack) (s : ConnectState) :
    ∃ newTrack passed rest prevTracks,
      takeNextTrack nextTracks s = (newTrack, placed s s.player.track prevTracks rest) ∧
      Takes nextTracks s.player.prevTracks newTrack passed rest prevTracks := by
  obtain ⟨newTrack, passed, rest, taken, split, notPlayed, playable, ends⟩ :=
    takeNextTrack_eq nextTracks s
  refine ⟨newTrack, passed, rest, _, taken, split, notPlayed, playable, ends, ?_, length_joined _⟩
  intro t inside
  exact (List.mem_append.mp ((joined_suffix ..).subset inside)).imp_right List.mem_filter.mp

theorem mem_retired (inside : t ∈ retired s) :
    t ∈ s.player.prevTracks ∨
      s.player.track = some t ∧ (t.isContext || t.isAutoplay) = true := by
  rw [retired] at inside
  cases kept : s.player.track.filter fun t => t.isContext || t.isAutoplay with
  | none =>
    rw [kept] at inside
    exact Or.inl inside
  | some oldTrack =>
    rw [kept] at inside
    rcases List.mem_append.mp ((pushed_suffix ..).subset inside) with old | new
    · exact Or.inl old
    · rw [List.mem_singleton.mp new]
      exact Or.inr (Option.filter_eq_some_iff.mp kept)

theorem length_retired (limit : s.player.prevTracks.length ≤ SPOTIFY_MAX_PREV_TRACKS_SIZE) :
    (retired s).length ≤ SPOTIFY_MAX_PREV_TRACKS_SIZE := by
  rw [retired]
  cases s.player.track.filter fun t => t.isContext || t.isAutoplay with
  | none => exact limit
  | some oldTrack => exact length_pushed oldTrack limit

/-- The same tracks around the current one. -/
structure SameTracks (s s' : ConnectState) : Prop where
  track_eq : s'.player.track = s.player.track
  prev_eq : s'.player.prevTracks = s.player.prevTracks
  next_eq : s'.player.nextTracks = s.player.nextTracks

/-- The same contexts as well. -/
structure SameDeck (s s' : ConnectState) : Prop extends SameTracks s s' where
  context_eq : s'.context = s.context
  autoplay_eq : s'.autoplayContext = s.autoplayContext

theorem sameDeck_setActiveContext (s : ConnectState) (ty : ContextType) :
    SameDeck s (s.setActiveContext ty) := by
  simp only [setActiveContext]
  split <;> exact ⟨⟨rfl, rfl, rfl⟩, rfl, rfl⟩

theorem sameDeck_newIndex (s : ConnectState) (t : ProvidedTrack) :
    SameDeck s (s.newIndex t).1 := by
  rw [newIndex]
  split
  · exact ⟨⟨rfl, rfl, rfl⟩, rfl, rfl⟩
  · split
    · exact sameDeck_setActiveContext s .autoplay
    · exact ⟨⟨rfl, rfl, rfl⟩, rfl, rfl⟩

theorem startTrack_deck (s : ConnectState) (t : ProvidedTrack) :
    SameDeck (s.setTrack t) (s.startTrack t).1 := by
  have same := sameDeck_newIndex s t
  simp only [startTrack]
  split <;> exact ⟨⟨rfl, same.prev_eq, same.next_eq⟩, same.context_eq, same.autoplay_eq⟩

/-- What moving on to the next track does. -/
structure MovesOn (s : ConnectState) (reply : Reply (Option Nat)) (newTrack : Option ProvidedTrack)
    (passed rest added : List ProvidedTrack) : Prop where
  takes : Takes s.player.nextTracks (retired s) newTrack passed rest reply.1.player.prevTracks
  track : reply.1.player.track = newTrack ∨
    reply.1.player.track = none ∧ ¬ Loaded s ∧ ∃ e, reply.2 = .error e
  next : reply.1.player.nextTracks = rest ++ added
  drawn : ∀ t ∈ added, Drawn s t
  room : added.length ≤ SPOTIFY_MAX_NEXT_TRACKS_SIZE - rest.length
  contexts : SameContexts s reply.1

theorem loaded_congr (context : s'.context = s.context)
    (autoplay : s'.autoplayContext = s.autoplayContext)
    (fillUp : s'.fillUpContext = s.fillUpContext) (loaded : Loaded s) : Loaded s' := by
  obtain ⟨ctx, ok⟩ := loaded
  exact ⟨ctx, by rw [getContext_congr context autoplay, fillUp, ok]⟩

/-- What follows once a track has been taken off the next tracks. -/
def playTaken (newTrack : Option ProvidedTrack) (s : ConnectState) : Reply (Option Nat) :=
  match newTrack with
  | none => (s, .ok none)
  | some t => s.fillUpNextTracks.andThen fun s _ => s.startTrack t

section

variable (s)

theorem nextTrack_eq :
    ∃ s₁, SameWindow s s₁ ∧ s₁.queueCount = s.queueCount ∧ s.nextTrack =
      let taken := takeNextTrack s₁.player.nextTracks
        (placed s₁ none (retired s₁) s₁.player.nextTracks)
      playTaken taken.1 taken.2 := by
  refine ⟨_, sameWindow_setRepeatTrack s, by split <;> rfl, ?_⟩
  rw [nextTrack, retireTrack_eq]
  simp only [placed, setPlayer]
  split
  · rename_i taken
    rw [taken]
    rfl
  · rename_i taken
    rw [taken]
    rfl

theorem playTaken_spec (newTrack : Option ProvidedTrack) (empty : s.player.track = none) :
    ∃ added, let s' := (playTaken newTrack s).1
      (s'.player.track = newTrack ∨
        s'.player.track = none ∧ ¬ Loaded s ∧ ∃ e, (playTaken newTrack s).2 = .error e) ∧
      s'.player.prevTracks = s.player.prevTracks ∧
      s'.player.nextTracks = s.player.nextTracks ++ added ∧ (∀ t ∈ added, Drawn s t) ∧
      added.length ≤ SPOTIFY_MAX_NEXT_TRACKS_SIZE - s.player.nextTracks.length ∧
      SameContexts s s' := by
  cases newTrack with
  | none => exact ⟨[], Or.inl empty, rfl, by simp [playTaken], by simp, by simp,
    sameContexts_refl s⟩
  | some t =>
    obtain ⟨added, fillUp, i, j, filled, drawn, room, succeeds⟩ := fillUp_spec s
    have contexts := sameContexts_refilled s added fillUp i j
    refine ⟨added, ?_⟩
    simp only [playTaken]
    generalize s.fillUpNextTracks = reply at filled succeeds
    obtain ⟨s', outcome⟩ := reply
    subst filled
    cases outcome with
    | error e =>
      have missing : ¬ Loaded s := by
        intro loaded
        cases succeeds loaded
      exact ⟨Or.inr ⟨empty, missing, e, rfl⟩, rfl, rfl, drawn, room, contexts⟩
    | ok _ =>
      have deck := startTrack_deck (refilled s added fillUp i j) t
      have contexts' : SameContexts (refilled s added fillUp i j)
          ((refilled s added fillUp i j).startTrack t).1 :=
        sameContexts_of_eq deck.context_eq deck.autoplay_eq
      exact ⟨Or.inl deck.track_eq, deck.prev_eq, deck.next_eq, drawn, room,
        sameContexts_trans contexts contexts'⟩

theorem nextTrack_takes :
    ∃ s₁ newTrack passed rest prevTracks, SameWindow s s₁ ∧
      Takes s.player.nextTracks (retired s) newTrack passed rest prevTracks ∧
      s.nextTrack = playTaken newTrack (placed s₁ none prevTracks rest) := by
  obtain ⟨s₁, same, -, result⟩ := nextTrack_eq s
  have retired_eq : retired s₁ = retired s := by
    rw [retired, retired, same.track_eq, same.prev_eq]
  obtain ⟨newTrack, passed, rest, prevTracks, taken, takes⟩ :=
    takeNextTrack_takes s₁.player.nextTracks (placed s₁ none (retired s₁) s₁.player.nextTracks)
  change Takes s₁.player.nextTracks (retired s₁) _ _ _ _ at takes
  rw [same.next_eq, retired_eq] at takes
  rw [taken] at result
  exact ⟨s₁, newTrack, passed, rest, prevTracks, same, takes, result⟩

theorem nextTrack_spec :
    ∃ newTrack passed rest added, MovesOn s s.nextTrack newTrack passed rest added := by
  obtain ⟨s₁, newTrack, passed, rest, prevTracks, same, takes, result⟩ := nextTrack_takes s
  rw [result]
  obtain ⟨added, track, prev, next, drawn, room, contexts⟩ :=
    playTaken_spec (placed s₁ none prevTracks rest) newTrack rfl
  have contexts₁ : SameContexts s (placed s₁ none prevTracks rest) :=
    sameContexts_of_eq same.context_eq same.autoplay_eq
  refine ⟨newTrack, passed, rest, added, ?_⟩
  constructor
  · exact prev.symm ▸ takes
  · rcases track with played | ⟨lost, missing, fails⟩
    · exact Or.inl played
    · refine Or.inr ⟨lost, fun loaded => missing ?_, fails⟩
      exact loaded_congr same.context_eq same.autoplay_eq same.fillUp_eq loaded
  · exact next
  · exact fun t inside => drawn_sameContexts contexts₁ (drawn t inside)
  · exact room
  · exact sameContexts_trans contexts₁ contexts

end

/-- What going back to the previous track does. -/
structure GoesBack (s s' : ConnectState) (newTrack : Option ProvidedTrack)
    (added : List ProvidedTrack) : Prop where
  prev : s.player.prevTracks = s'.player.prevTracks ++ newTrack.toList ++ lastDelimiter s
  track : s'.player.track = newTrack ∨ s'.player.track = none
  next : s'.player.nextTracks = (reinserted s).take SPOTIFY_MAX_NEXT_TRACKS_SIZE ++ added
  drawn : ∀ t ∈ added, Drawn s t
  room : added.length ≤ SPOTIFY_MAX_NEXT_TRACKS_SIZE -
    ((reinserted s).take SPOTIFY_MAX_NEXT_TRACKS_SIZE).length
  contexts : SameContexts s s'

theorem playReturned_eq (s : ConnectState) (newTrack : ProvidedTrack) :
    ∃ s₁, playReturned s newTrack = s₁.fillUpNextTracks.andThen (fun s _ => s.backTo newTrack) ∧
      SameDeck s s₁ ∧ s₁.player.index = s.player.index ∧ s₁.fillUpContext = s.fillUpContext := by
  refine ⟨_, rfl, ?_⟩
  split
  · refine ⟨sameDeck_setActiveContext s .default, ?_⟩
    simp only [setActiveContext]
    split <;> exact ⟨rfl, rfl⟩
  · exact ⟨⟨⟨rfl, rfl, rfl⟩, rfl, rfl⟩, rfl, rfl⟩

theorem playReturned_spec (s : ConnectState) (newTrack : ProvidedTrack)
    (empty : s.player.track = none) :
    ∃ added, let s' := (playReturned s newTrack).1
      (s'.player.track = some newTrack ∨ s'.player.track = none) ∧
      s'.player.prevTracks = s.player.prevTracks ∧
      s'.player.nextTracks = s.player.nextTracks ++ added ∧ (∀ t ∈ added, Drawn s t) ∧
      added.length ≤ SPOTIFY_MAX_NEXT_TRACKS_SIZE - s.player.nextTracks.length ∧
      SameContexts s s' := by
  obtain ⟨s₁, result, deck₁, -⟩ := playReturned_eq s newTrack
  have contexts₁ : SameContexts s s₁ := sameContexts_of_eq deck₁.context_eq deck₁.autoplay_eq
  obtain ⟨added, fillUp, i, j, filled, drawn, room, -⟩ := fillUp_spec s₁
  have contexts := sameContexts_trans contexts₁ (sameContexts_refilled s₁ added fillUp i j)
  have drawn' : ∀ t ∈ added, Drawn s t :=
    fun t inside => drawn_sameContexts contexts₁ (drawn t inside)
  have next : s₁.player.nextTracks ++ added = s.player.nextTracks ++ added := by
    rw [deck₁.next_eq]
  rw [deck₁.next_eq] at room
  refine ⟨added, ?_⟩
  rw [result]
  generalize s₁.fillUpNextTracks = reply at filled
  obtain ⟨s', outcome⟩ := reply
  subst filled
  cases outcome with
  | error e =>
    exact ⟨Or.inr (deck₁.track_eq.trans empty), deck₁.prev_eq, next, drawn', room, contexts⟩
  | ok _ =>
    have same := backTo_spec (refilled s₁ added fillUp i j) newTrack
    have contexts' : SameContexts (refilled s₁ added fillUp i j)
        ((refilled s₁ added fillUp i j).backTo newTrack).1 :=
      sameContexts_of_eq same.context_eq same.autoplay_eq
    exact ⟨Or.inl same.track_eq, same.prev_eq.trans deck₁.prev_eq, same.next_eq.trans next, drawn',
      room, sameContexts_trans contexts contexts'⟩

theorem prevTrack_spec (s : ConnectState) :
    ∃ newTrack added, GoesBack s s.prevTrack.1 newTrack added := by
  obtain ⟨prevTracks, prev, result⟩ := prevTrack_eq s
  rw [result]
  generalize cut : (reinserted s).take SPOTIFY_MAX_NEXT_TRACKS_SIZE = next
  cases last : prevTracks.getLast? with
  | none =>
    obtain rfl := List.getLast?_eq_none_iff.mp last
    refine ⟨none, [], prev, Or.inl rfl, ?_, by simp, by simp, sameContexts_of_eq rfl rfl⟩
    simp [cut, placed, setPlayer]
  | some newTrack =>
    have split := List.dropLast_append_getLast? newTrack last
    obtain ⟨added, track, prev', next', drawn, room, contexts⟩ :=
      playReturned_spec (placed s none prevTracks.dropLast next) newTrack rfl
    have contexts₁ : SameContexts s (placed s none prevTracks.dropLast next) :=
      sameContexts_of_eq rfl rfl
    refine ⟨some newTrack, added, ?_⟩
    constructor
    · rw [prev', prev]
      exact congrArg (· ++ lastDelimiter s) split.symm
    · exact track
    · rw [cut]
      exact next'
    · exact fun t inside => drawn_sameContexts contexts₁ (drawn t inside)
    · rw [cut]
      exact room
    · exact sameContexts_trans contexts₁ contexts

/-- What holds both where a computation stops and where it goes on. -/
theorem andThen_state {A B : Type} {P : ConnectState → Prop} {r : Reply A}
    {f : ConnectState → A → Reply B} (stops : P r.1) (goes : ∀ a, P (f r.1 a).1) :
    P (r.andThen f).1 := by
  obtain ⟨s, a | a⟩ := r
  · exact stops
  · exact goes a

/-- The current and the previous tracks may have been taken from the contexts. -/
structure Repositions (s s' : ConnectState) : Prop where
  track : s'.player.track = s.player.track ∨ ∃ t ∈ stock s, s'.player.track = some t
  prev : s'.player.prevTracks = s.player.prevTracks ∨ (∀ t ∈ s'.player.prevTracks, t ∈ stock s) ∧
    s'.player.prevTracks.length ≤ SPOTIFY_MAX_PREV_TRACKS_SIZE
  contexts : SameContexts s s'

/-- What a reset to a position does; where it fails, the next tracks may stay. -/
structure Resets (s s' : ConnectState) : Prop extends Repositions s s' where
  next : s'.player.nextTracks = s.player.nextTracks ∨
    ∃ added, s'.player.nextTracks = s.player.nextTracks.takeWhile ProvidedTrack.isQueue ++ added ∧
      (∀ t ∈ added, Drawn s t) ∧ added.length ≤ SPOTIFY_MAX_NEXT_TRACKS_SIZE -
        (s.player.nextTracks.takeWhile ProvidedTrack.isQueue).length

theorem tracksBefore_spec (tracks : List ProvidedTrack) (newIndex : Nat) :
    (∀ t ∈ tracksBefore tracks newIndex, t ∈ tracks) ∧
      (tracksBefore tracks newIndex).length ≤ SPOTIFY_MAX_PREV_TRACKS_SIZE := by
  refine ⟨fun t => tracksBefore_mem, ?_⟩
  rw [tracksBefore, List.length_reverse]
  exact List.length_take_le ..

theorem resetPrevTracks_eq (s : ConnectState) (newIndex : Nat) :
    ∃ prevTracks, (s.resetPrevTracks newIndex).1 =
        s.setPlayer (fun p => { p with prevTracks := prevTracks }) ∧
      (∀ t ∈ prevTracks, t ∈ stock s) ∧ prevTracks.length ≤ SPOTIFY_MAX_PREV_TRACKS_SIZE := by
  simp only [resetPrevTracks]
  by_cases first : newIndex = 0
  · rw [if_pos first]
    exact ⟨[], rfl, by simp, by simp⟩
  · rw [if_neg first]
    cases loaded : (s.setPlayer fun p => { p with prevTracks := [] }).getContext
        (s.setPlayer fun p => { p with prevTracks := [] }).activeContext with
    | error e => exact ⟨[], rfl, by simp, by simp⟩
    | ok ctx =>
      obtain ⟨inside, short⟩ := tracksBefore_spec ctx.tracks.vec newIndex
      exact ⟨_, rfl, fun t before => mem_stock loaded (inside t before), short⟩

/-- A reset before it cuts the next tracks back. -/
structure Places (s s' : ConnectState) : Prop extends Repositions s s' where
  next_eq : s'.player.nextTracks = s.player.nextTracks
  count_eq : s'.queueCount = s.queueCount

section Reset

variable {s s' : ConnectState} (h : Places s s')
include h

theorem resetTrack_places (newIndex : Nat) : Places s (s'.resetTrack newIndex).1 := by
  simp only [resetTrack]
  split
  · exact h
  · rw [setCurrentTrack]
    cases loaded : s'.getContext s'.activeContext with
    | error e => exact h
    | ok ctx =>
      dsimp only
      cases found : ctx.tracks.vec[newIndex]? with
      | none => exact h
      | some newTrack =>
        have inside := mem_stock loaded (List.mem_of_getElem? found)
        rw [stock_sameContexts h.contexts] at inside
        exact ⟨⟨Or.inr ⟨newTrack, inside, rfl⟩, h.prev, ⟨h.contexts.1, h.contexts.2⟩⟩, h.next_eq,
          h.count_eq⟩

theorem resetPrevTracks_places (newIndex : Nat) : Places s (s'.resetPrevTracks newIndex).1 := by
  obtain ⟨prevTracks, result, inside, short⟩ := resetPrevTracks_eq s' newIndex
  rw [result]
  rw [stock_sameContexts h.contexts] at inside
  exact ⟨⟨h.track, Or.inr ⟨inside, short⟩, ⟨h.contexts.1, h.contexts.2⟩⟩, h.next_eq, h.count_eq⟩

theorem clearAndFill_resets : Resets s s'.clearNextTracks.fillUpNextTracks.1 := by
  obtain ⟨added, fillUp, i, j, filled, drawn, room, -⟩ := fillUp_spec s'.clearNextTracks
  have next : s'.clearNextTracks.player.nextTracks =
      s.player.nextTracks.takeWhile ProvidedTrack.isQueue := by
    rw [← h.next_eq]
    rfl
  have contexts : SameContexts s s'.clearNextTracks := ⟨h.contexts.1, h.contexts.2⟩
  rw [filled]
  refine ⟨⟨h.track, h.prev, ?_⟩, Or.inr ⟨added, ?_, ?_, ?_⟩⟩
  · exact sameContexts_trans contexts (sameContexts_refilled ..)
  · rw [← next]
    rfl
  · exact fun t inside => drawn_sameContexts contexts (drawn t inside)
  · rw [← next]
    exact room

end Reset

/-- What holds wherever a reset stops, and behind what it goes on with, holds of the reset. -/
theorem reset_places {newIndex : Nat} {A : Type} {f : ConnectState → Reply A}
    {P : ConnectState → Prop} (stops : ∀ s', Places s s' → P s')
    (goes : ∀ s', Places s s' → P (f s').1) :
    P (((s.updateCurrentIndex fun _ => newIndex).updateContextIndex s.activeContext
      (wrappingAdd newIndex 1)).andThen fun s _ =>
        ({ s with fillUpContext := s.activeContext }.resetTrack newIndex).andThen fun s _ =>
          (s.resetPrevTracks newIndex).andThen fun s _ => f s).1 := by
  obtain ⟨i, j, moved⟩ := updateContextIndex_refilled (s.updateCurrentIndex fun _ => newIndex)
    s.activeContext (wrappingAdd newIndex 1)
  let s₁ := refilled (s.updateCurrentIndex fun _ => newIndex) [] s.fillUpContext i j
  have h₁ : Places s s₁ :=
    ⟨⟨Or.inl rfl, Or.inl rfl, ⟨⟨i, rfl⟩, ⟨j, rfl⟩⟩⟩, List.append_nil _, rfl⟩
  have h₂ : Places s { s₁ with fillUpContext := s₁.activeContext } :=
    ⟨⟨h₁.track, h₁.prev, ⟨h₁.contexts.1, h₁.contexts.2⟩⟩, h₁.next_eq, rfl⟩
  have h₃ := resetTrack_places h₂ newIndex
  have h₄ := resetPrevTracks_places h₃ newIndex
  apply andThen_state
  · rw [moved]
    exact stops s₁ h₁
  · intro _
    rw [moved]
    apply andThen_state
    · exact stops _ h₃
    · intro _
      apply andThen_state
      · exact stops _ h₄
      · intro _
        exact goes _ h₄

theorem resetPlaybackToPosition_spec (s : ConnectState) (newIndex : Option Nat) :
    Resets s (s.resetPlaybackToPosition newIndex).1 := by
  refine reset_places (fun s' h => ⟨h.toRepositions, Or.inl h.next_eq⟩) ?_
  intro s' h
  have filled := clearAndFill_resets h
  apply andThen_state
  · exact filled
  · intro _
    exact ⟨⟨filled.track, filled.prev, ⟨filled.contexts.1, filled.contexts.2⟩⟩, filled.next⟩

theorem resetContext_sameTracks (s : ConnectState) (resetAs : ResetContext) :
    SameTracks s (s.resetContext resetAs) := by
  have active : ∀ s' : ConnectState, SameTracks s s' → SameTracks s
      ({ s' with fillUpContext := .default }.setActiveContext .default).updateRestrictions := by
    intro s' tracks
    have deck := sameDeck_setActiveContext { s' with fillUpContext := .default } .default
    exact ⟨deck.track_eq.trans tracks.track_eq, deck.prev_eq.trans tracks.prev_eq,
      deck.next_eq.trans tracks.next_eq⟩
  cases resetAs with
  | completely => exact active s.unshuffleContext.dropContexts ⟨rfl, rfl, rfl⟩
  | defaultIndex => exact active s.unshuffleContext.rewindContexts ⟨rfl, rfl, rfl⟩
  | whenDifferent uri =>
    simp only [resetContext]
    split
    · exact active s.unshuffleContext.dropContexts ⟨rfl, rfl, rfl⟩
    · exact active s.unshuffleContext ⟨rfl, rfl, rfl⟩

theorem mem_stock_resetContext (inside : t ∈ stock (s.resetContext .defaultIndex)) :
    t ∈ stock s := by
  let s' := { s.unshuffleContext.rewindContexts with fillUpContext := ContextType.default }
  have deck := sameDeck_setActiveContext s' .default
  have same : stock (s.resetContext .defaultIndex) = stock s' := by
    change stored (s'.setActiveContext .default).context ++
      stored (s'.setActiveContext .default).autoplayContext = _
    rw [deck.context_eq, deck.autoplay_eq]
    rfl
  rw [same] at inside
  rcases List.mem_append.mp inside with inside | inside
  · refine List.mem_append_left _ ?_
    cases loaded : s.context with
    | none => simp [s', rewindContexts, unshuffleContext, loaded, stored] at inside
    | some ctx =>
      simp only [s', rewindContexts, unshuffleContext, loaded, Option.map_some, stored] at inside
      exact ShuffleVec.mem_of_mem_unshuffle inside
  · refine List.mem_append_right _ ?_
    cases loaded : s.autoplayContext with
    | none => simp [s', rewindContexts, unshuffleContext, loaded, stored] at inside
    | some ctx =>
      simp only [s', rewindContexts, unshuffleContext, loaded, Option.map_some, stored] at inside
      exact inside

/-- What shuffling leaves around the current track. -/
structure Shuffles (s s' : ConnectState) : Prop where
  track : s'.player.track = s.player.track
  prev : s'.player.prevTracks = []
  next : ∃ added, s'.player.nextTracks = s.player.nextTracks.takeWhile ProvidedTrack.isQueue
      ++ added ∧
    ∀ t ∈ added, Drawn s t
  stocked : ∀ t ∈ stock s', t ∈ stock s

variable (smallRng : Nat → Rng)

def shuffledContext (ctx : StateContext) (seed : Nat) (initialTrack : String) : StateContext :=
  { ctx with
    tracks := ctx.tracks.shuffleWithRng (smallRng seed) fun t => t.uri == initialTrack
    metadata := (ctx.metadata.insert "initial_track" initialTrack).insert "shuffle_seed"
      (toString seed) }

/-- Shuffling rewinds the contexts, orders the default one anew and fills up from it. -/
theorem shuffle_eq (s : ConnectState) (seed : Nat) (initialTrack : String) :
    let s₁ := s.clearPrevTrack.clearNextTracks.resetContext .defaultIndex
    s.shuffle smallRng seed initialTrack = match s₁.context with
      | none => (s₁, .error (.noContext .default))
      | some ctx => { s₁ with
          context := some (shuffledContext smallRng ctx seed initialTrack) }.fillUpNextTracks :=
  rfl

theorem shuffle_spec (s : ConnectState) (seed : Nat) (initialTrack : String) :
    Shuffles s (s.shuffle smallRng seed initialTrack).1 := by
  let s₁ := s.clearPrevTrack.clearNextTracks.resetContext .defaultIndex
  have tracks := resetContext_sameTracks s.clearPrevTrack.clearNextTracks .defaultIndex
  have stocked : ∀ t ∈ stock s₁, t ∈ stock s.clearPrevTrack.clearNextTracks :=
    fun t inside => mem_stock_resetContext inside
  have prev : s₁.player.prevTracks = [] := tracks.prev_eq
  have next : s₁.player.nextTracks = s.player.nextTracks.takeWhile ProvidedTrack.isQueue :=
    tracks.next_eq
  rw [shuffle_eq]
  cases loaded : s₁.context with
  | none =>
    exact ⟨tracks.track_eq, prev, ⟨[], next.trans (List.append_nil _).symm, by simp⟩, stocked⟩
  | some ctx =>
    dsimp only
    generalize shuffled : ({ s₁ with
      context := some (shuffledContext smallRng ctx seed initialTrack) } : ConnectState) = s₂
    have stocked₂ : ∀ t ∈ stock s₂, t ∈ stock s := by
      intro t inside
      apply stocked
      subst shuffled
      rcases List.mem_append.mp inside with inside | inside
      · refine List.mem_append_left _ ?_
        rw [loaded]
        exact ShuffleVec.mem_of_mem_shuffleWithRng inside
      · exact List.mem_append_right _ inside
    obtain ⟨added, fillUp, i, j, filled, drawn, -⟩ := fillUp_spec s₂
    rw [filled]
    constructor
    · subst shuffled
      exact tracks.track_eq
    · subst shuffled
      exact prev
    · refine ⟨added, ?_, ?_⟩
      · subst shuffled
        exact congrArg (· ++ added) next
      · intro t inside
        rcases drawn t inside with delimiter | ⟨inside, available⟩
        · exact Or.inl delimiter
        · exact Or.inr ⟨stocked₂ t inside, available⟩
    · intro t inside
      rw [stock_refilled] at inside
      exact stocked₂ t inside

/-- The tracks around the current one stay, and the contexts get no further tracks. -/
structure Rewinds (s s' : ConnectState) : Prop extends SameTracks s s' where
  stocked : ∀ t ∈ stock s', t ∈ stock s

section

variable (s)

theorem resetContext_rewinds : Rewinds s (s.resetContext .defaultIndex) :=
  ⟨resetContext_sameTracks s .defaultIndex, fun _ inside => mem_stock_resetContext inside⟩

theorem handleShuffle_on (newSeed : Nat) : let s' := (s.handleShuffle smallRng true newSeed).1
    Rewinds s s' ∨ Shuffles s s' := by
  simp only [handleShuffle, if_true, shuffleNew]
  cases (s.setShuffle true).validateShuffleAllowed with
  | error e => exact Or.inl ⟨⟨rfl, rfl, rfl⟩, fun _ inside => inside⟩
  | ok _ =>
    have h := shuffle_spec smallRng (s.setShuffle true) newSeed (s.setShuffle true).currentTrack.uri
    exact Or.inr ⟨h.track, h.prev, h.next, h.stocked⟩

theorem handleShuffle_off (newSeed : Nat) : let s' := (s.handleShuffle smallRng false newSeed).1
    ∃ s₁, Rewinds s s₁ ∧ (s' = s₁ ∨ Resets s₁ s') := by
  have rewinds : Rewinds s ((s.setShuffle false).resetContext .defaultIndex) := by
    have h := resetContext_rewinds (s.setShuffle false)
    exact ⟨⟨h.track_eq, h.prev_eq, h.next_eq⟩, h.stocked⟩
  refine ⟨_, rewinds, ?_⟩
  simp only [handleShuffle, Bool.false_eq_true, if_false]
  repeat' split
  all_goals first
    | exact Or.inl rfl
    | exact Or.inr (resetPlaybackToPosition_spec _ _)

theorem handleSetRepeatContext_spec (enabled : Bool) :
    let s' := (s.handleSetRepeatContext enabled).1
    ∃ s₁, Rewinds s s₁ ∧ (s' = s₁ ∨ Resets s₁ s') := by
  simp only [handleSetRepeatContext]
  generalize moved :
      (if enabled = true ∧ (s.setRepeatContext enabled).fillUpContext = .autoplay then
    { s.setRepeatContext enabled with fillUpContext := .default }
    else s.setRepeatContext enabled) = s₁
  have rewinds : Rewinds s s₁ := by
    subst moved
    split <;> exact ⟨⟨rfl, rfl, rfl⟩, fun _ inside => inside⟩
  refine ⟨s₁, rewinds, ?_⟩
  repeat' split
  all_goals first
    | exact Or.inl rfl
    | exact Or.inr (resetPlaybackToPosition_spec _ _)

end

end ConnectDeck
