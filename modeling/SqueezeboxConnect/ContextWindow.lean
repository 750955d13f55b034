import Mathlib.Data.List.TakeWhile
import SqueezeboxConnect.Runs
import SqueezeboxConnect.ConnectContext

/-!
# The window over a context

The current track, the next tracks and the part of the context behind the
fill-up cursor together hold the tracks that are still to be played. Going
forward takes tracks off their front, going back puts tracks there. What
breaks the window is a track that is popped from its back: the cursor has
already passed it.
-/

namespace ContextWindow

open Connect ConnectState Runs ProvidedTrack

def avail (tracks : List ProvidedTrack) : List ProvidedTrack :=
  tracks.filter ProvidedTrack.isContext

@[simp] theorem avail_nil : avail [] = [] := rfl

@[simp] theorem avail_append (front back : List ProvidedTrack) :
    avail (front ++ back) = avail front ++ avail back :=
  List.filter_append ..

theorem avail_cons (t : ProvidedTrack) (rest : List ProvidedTrack) :
    avail (t :: rest) = avail [t] ++ avail rest :=
  avail_append [t] rest

variable {tracks : List ProvidedTrack} {s s' : ConnectState}

theorem avail_eq_nil (nothing : tracks.any isContext = false) : avail tracks = [] := by
  rw [avail, List.filter_eq_nil_iff]
  intro t ht
  simp only [List.any_eq_false] at nothing
  exact nothing t ht

theorem avail_take {limit : Nat} (kept : (tracks.drop limit).any isContext = false) :
    avail (tracks.take limit) = avail tracks := by
  conv => rhs; rw [← List.take_append_drop limit tracks]
  rw [avail_append, avail_eq_nil kept, List.append_nil]

/-- A suffix of the playable tracks belongs to a suffix of the tracks. -/
theorem suffix_avail {upcoming : List ProvidedTrack} (h : upcoming <:+ avail tracks) :
    ∃ k, upcoming = avail (tracks.drop k) := by
  induction tracks with
  | nil =>
    have nothing : upcoming = [] := List.suffix_nil.mp h
    exact ⟨0, nothing⟩
  | cons t rest ih =>
    rw [avail_cons] at h
    by_cases playable : t.isContext = true
    · have single : avail [t] = [t] := by simp [avail, playable]
      rw [single, List.singleton_append, List.suffix_cons_iff] at h
      rcases h with whole | shorter
      · refine ⟨0, ?_⟩
        rw [whole, List.drop_zero, avail_cons, single]
        rfl
      · obtain ⟨k, hk⟩ := ih shorter
        exact ⟨k + 1, hk⟩
    · have absent : avail [t] = [] := by simp [avail, playable]
      rw [absent, List.nil_append] at h
      obtain ⟨k, hk⟩ := ih h
      exact ⟨k + 1, hk⟩

/-- How far the context has been put into the next tracks. -/
def cursor (s : ConnectState) : Nat := (s.context.map fun ctx => ctx.index.track).getD 0

/-- The tracks of the context that are still to be played, the current one first. -/
def upcoming (tracks : List ProvidedTrack) (s : ConnectState) : List ProvidedTrack :=
  avail s.player.track.toList ++ avail s.player.nextTracks ++ avail (tracks.drop (cursor s))

/-- A default context is active, without repeat, shuffle or autoplay. -/
structure DefaultContext (tracks : List ProvidedTrack) (s : ConnectState) : Prop where
  context : ∃ ctx, s.context = some ctx ∧ ctx.tracks.vec = tracks ∧
    ctx.metadata.get "initial_track" = none
  autoplayContext : s.autoplayContext = none
  activeContext : s.activeContext = .default
  repeatContext : s.repeatContext = false

/-- The next tracks are filled up from that context. -/
structure Plain (tracks : List ProvidedTrack) (s : ConnectState) : Prop
    extends DefaultContext tracks s where
  fillUpContext : s.fillUpContext = .default

/-- No track around the current one comes from an autoplay context. -/
def NoAutoplay (s : ConnectState) : Prop :=
  ∀ t ∈ s.player.prevTracks ++ s.player.track.toList ++ s.player.nextTracks,
    t.isAutoplay = false

/-- The tracks of a default context are context tracks or unavailable. -/
def DefaultTracks (tracks : List ProvidedTrack) : Prop :=
  ∀ t ∈ tracks, t.provider = .context ∨ t.provider = .unavailable

theorem getContext_congr (context : s'.context = s.context)
    (autoplay : s'.autoplayContext = s.autoplayContext) (ty : ContextType) :
    s'.getContext ty = s.getContext ty := by
  cases ty with
  | default => simp only [getContext, context]
  | autoplay => simp only [getContext, autoplay]

variable {ctx : StateContext}

theorem default_of_loaded (loaded : s.getContext s.fillUpContext = .ok ctx)
    (other : s.fillUpContext ≠ .autoplay) : s.fillUpContext = .default ∧ s.context = some ctx := by
  cases fillUp : s.fillUpContext with
  | autoplay => exact absurd fillUp other
  | default =>
    refine ⟨rfl, ?_⟩
    cases hs : s.context with
    | none => simp [fillUp, getContext, hs] at loaded
    | some ctx' => simpa [fillUp, getContext, hs] using loaded

/-- Behind the end of the fill-up context there is nothing more in the autoplay context:
either it is that context, or it is not loaded. -/
theorem no_autoplay_left {n : Nat} (loaded : s.getContext s.fillUpContext = .ok ctx)
    (ends : ctx.tracks.vec[n]? = none)
    (stays : ¬ (s.fillUpContext ≠ .autoplay ∧ s.autoplayContext.isSome = true)) :
    (s.autoplayContext.bind fun autoplay => autoplay.tracks.vec[n]?) = none := by
  cases ha : s.autoplayContext with
  | none => rfl
  | some autoplay =>
    have isAutoplay : s.fillUpContext = .autoplay := by
      by_contra other
      exact stays ⟨other, by simp [ha]⟩
    simp only [isAutoplay, getContext, ha, Option.elim, Except.ok.injEq] at loaded
    subst loaded
    exact ends

/-- A round of the loop passes the track over. -/
def passes (s : ConnectState) (iteration : Nat) (t : ProvidedTrack) : Bool :=
  t.isUnavailable || s.isSkipTrack t (some iteration)

/-- The tracks that the loop adds before it comes to the end of the context. -/
def ahead (s : ConnectState) (tracks : List ProvidedTrack) (c : FillCursor) : List ProvidedTrack :=
  (tracks.drop c.newIndex).filter fun t => !passes s c.iteration t

/-- What the loop finds next while the fill-up context is loaded. -/
inductive NextFill (s : ConnectState) (ctx : StateContext) (c : FillCursor) :
    Reply (Option ProvidedTrack × FillCursor) → Prop
  | track {t : ProvidedTrack} {n : Nat} (later : c.newIndex ≤ n)
      (found : ctx.tracks.vec[n]? = some t)
      (next : ahead s ctx.tracks.vec c = t :: ahead s ctx.tracks.vec ⟨n + 1, c.iteration⟩) :
      NextFill s ctx c (s, .ok (some t, ⟨n + 1, c.iteration⟩))
  | again (nothing : ahead s ctx.tracks.vec c = []) (repeats : s.repeatContext = true) :
      NextFill s ctx c (s, .ok (some (newDelimiter c.iteration), ⟨0, c.iteration + 1⟩))
  | autoplay {autoplay : StateContext} {n : Nat} (nothing : ahead s ctx.tracks.vec c = [])
      (once : s.repeatContext = false) (first : s.fillUpContext = .default)
      (context : s.context = some ctx) (loaded : s.autoplayContext = some autoplay)
      (place : n = max c.newIndex ctx.tracks.vec.length) :
      NextFill s ctx c ({ s with context := some (ctx.moveTo n), fillUpContext := .autoplay },
        .ok (some (newDelimiter c.iteration), ⟨autoplay.index.track, c.iteration⟩))
  | ends (nothing : ahead s ctx.tracks.vec c = []) (once : s.repeatContext = false)
      (last : s.fillUpContext = .default → s.autoplayContext = none) :
      NextFill s ctx c (s, .ok (none, ⟨max c.newIndex ctx.tracks.vec.length, c.iteration⟩))

theorem nextFill_cases (loaded : s.getContext s.fillUpContext = .ok ctx) (c : FillCursor) :
    NextFill s ctx c (s.nextFill c) := by
  have skips : s.skipped ctx.tracks.vec c =
      ((ctx.tracks.vec.drop c.newIndex).takeWhile (passes s c.iteration)).length := rfl
  have split := List.takeWhile_append_dropWhile (p := passes s c.iteration)
    (l := ctx.tracks.vec.drop c.newIndex)
  rw [nextFill, loaded]
  dsimp only
  rw [skips]
  generalize passed : (ctx.tracks.vec.drop c.newIndex).takeWhile (passes s c.iteration) =
    front at split
  have dropped : front.filter (fun t => !passes s c.iteration t) = [] := by
    rw [List.filter_eq_nil_iff]
    intro t inside
    rw [← passed] at inside
    simp [List.mem_takeWhile_imp inside]
  cases rest : (ctx.tracks.vec.drop c.newIndex).dropWhile (passes s c.iteration) with
  | cons t behind =>
    rw [rest] at split
    have found : ctx.tracks.vec[c.newIndex + front.length]? = some t := by
      rw [← List.getElem?_drop, ← split]
      simp
    have stays : passes s c.iteration t = false := by
      have first := List.head?_dropWhile_not (passes s c.iteration) (ctx.tracks.vec.drop c.newIndex)
      simpa [rest] using first
    have left : ctx.tracks.vec.drop (c.newIndex + front.length + 1) = behind := by
      rw [Nat.add_assoc, ← List.drop_drop, ← split, List.drop_append]
      simp
    rw [found]
    refine .track (Nat.le_add_right _ _) found ?_
    rw [ahead, ← split, List.filter_append, dropped, List.nil_append,
      List.filter_cons_of_pos (by simp [stays]), ahead, left]
  | nil =>
    rw [rest, List.append_nil] at split
    have nothing : ahead s ctx.tracks.vec c = [] := by rw [ahead, ← split, dropped]
    have length := congrArg List.length split
    rw [List.length_drop] at length
    have ended : ctx.tracks.vec[c.newIndex + front.length]? = none :=
      List.getElem?_eq_none (by omega)
    rw [ended]
    dsimp only
    by_cases repeats : s.repeatContext = true
    · rw [if_pos repeats]
      exact .again nothing repeats
    · have once : s.repeatContext = false := by simpa using repeats
      have behind : c.newIndex + front.length = max c.newIndex ctx.tracks.vec.length := by omega
      rw [if_neg repeats]
      by_cases autoplays : s.fillUpContext ≠ .autoplay ∧ s.autoplayContext.isSome = true
      · obtain ⟨autoplay, ha⟩ := Option.isSome_iff_exists.mp autoplays.2
        obtain ⟨isDefault, hs⟩ := default_of_loaded loaded autoplays.1
        rw [if_pos autoplays]
        simp only [isDefault, updateContextIndex, getContext, hs, setContext, Reply.andThen,
          Option.elim, ha]
        rw [← ha]
        exact .autoplay nothing once isDefault hs ha behind
      · rw [if_neg autoplays, no_autoplay_left loaded ended autoplays]
        dsimp only
        rw [behind]
        exact .ends nothing once fun isDefault => by simpa [isDefault] using autoplays

/-- The tracks that filling up does not pass over. -/
def offered (tracks : List ProvidedTrack) : List ProvidedTrack :=
  tracks.filter fun t => !t.isUnavailable

theorem avail_offered (tracks : List ProvidedTrack) : avail (offered tracks) = avail tracks := by
  rw [avail, avail, offered, List.filter_filter]
  refine List.filter_congr fun t _ => ?_
  cases provider : t.provider <;> simp [isContext, isUnavailable, provider]

def addNext (s : ConnectState) (added : List ProvidedTrack) : ConnectState :=
  s.setPlayer fun p => { p with nextTracks := p.nextTracks ++ added }

theorem addNext_plain (h : Plain tracks s) (added : List ProvidedTrack) :
    Plain tracks (addNext s added) :=
  ⟨⟨h.context, h.autoplayContext, h.activeContext, h.repeatContext⟩, h.fillUpContext⟩

/-- The next tracks come from a context of which no track is left out. -/
structure Supplies (tracks : List ProvidedTrack) (s : ConnectState) : Prop where
  loaded : ∃ ctx, s.getContext s.fillUpContext = .ok ctx ∧ ctx.tracks.vec = tracks
  unmarked : ∀ t iteration, s.isSkipTrack t iteration = false

theorem plain_supplies (h : Plain tracks s) : Supplies tracks s := by
  obtain ⟨ctx, hctx, same, noInitial⟩ := h.context
  refine ⟨⟨ctx, by simp [h.fillUpContext, getContext, hctx], same⟩, fun t iteration => ?_⟩
  simp [isSkipTrack, h.activeContext, getContext, hctx, noInitial]

theorem ahead_supplied (h : Supplies tracks s) (c : FillCursor) :
    ahead s tracks c = offered (tracks.drop c.newIndex) := by
  simp only [ahead, passes, h.unmarked, Bool.or_false]
  rfl

variable {t : ProvidedTrack}

theorem nextFill_offered (h : Supplies tracks s) {c : FillCursor} {rest : List ProvidedTrack}
    (wanted : offered (tracks.drop c.newIndex) = t :: rest) :
    ∃ n, s.nextFill c = (s, .ok (some t, ⟨n + 1, c.iteration⟩)) ∧
      offered (tracks.drop (n + 1)) = rest ∧ c.newIndex ≤ n ∧ n < tracks.length := by
  rw [← ahead_supplied h] at wanted
  obtain ⟨ctx, loaded, rfl⟩ := h.loaded
  have next := nextFill_cases loaded c
  generalize s.nextFill c = reply at next
  cases next with
  | track later found next =>
    rw [next, ahead_supplied h] at wanted
    obtain ⟨rfl, rfl⟩ := List.cons.inj wanted
    exact ⟨_, rfl, rfl, later, (List.getElem?_eq_some_iff.mp found).1⟩
  | again nothing | autoplay nothing | ends nothing => simp [nothing] at wanted

theorem fillLoop_offered (h : Supplies tracks s) (room k : Nat) (c : FillCursor)
    (enough : k ≤ (offered (tracks.drop c.newIndex)).length) :
    ∃ n, fillLoop (room + k) s c = fillLoop room
        (addNext s ((offered (tracks.drop c.newIndex)).take k)) ⟨n, c.iteration⟩ ∧
      offered (tracks.drop n) = (offered (tracks.drop c.newIndex)).drop k ∧
      c.newIndex ≤ n ∧ n ≤ max c.newIndex tracks.length := by
  induction k generalizing s c with
  | zero =>
    exact ⟨c.newIndex, by simp [addNext, setPlayer], rfl, Nat.le_refl _, Nat.le_max_left ..⟩
  | succ k ih =>
    cases wanted : offered (tracks.drop c.newIndex) with
    | nil => simp [wanted] at enough
    | cons t rest =>
      obtain ⟨n, taken, remaining, later, inside⟩ := nextFill_offered h wanted
      rw [wanted, List.length_cons] at enough
      obtain ⟨m, loop, passed, later', inside'⟩ := @ih (addNext s [t]) ⟨h.loaded, h.unmarked⟩
        ⟨n + 1, c.iteration⟩ (by rw [remaining]; omega)
      simp only [remaining] at loop passed later' inside'
      have first : fillLoop (room + (k + 1)) s c =
          fillLoop (room + k) (addNext s [t]) ⟨n + 1, c.iteration⟩ := by
        rw [← Nat.add_assoc, fillLoop, taken]
        rfl
      refine ⟨m, ?_, passed, by omega, by omega⟩
      rw [first, loop]
      simp [addNext, setPlayer]

/-- The rest of the context is passed left, and the loop is left. -/
theorem nextFill_ended (h : Plain tracks s) {c : FillCursor}
    (nothing : offered (tracks.drop c.newIndex) = []) :
    s.nextFill c = (s, .ok (none, ⟨max c.newIndex tracks.length, c.iteration⟩)) := by
  have supplies := plain_supplies h
  rw [← ahead_supplied supplies] at nothing
  obtain ⟨ctx, loaded, rfl⟩ := supplies.loaded
  have next := nextFill_cases loaded c
  generalize s.nextFill c = reply at next
  cases next with
  | track _ _ next => simp [nothing] at next
  | again _ repeats => simp [h.repeatContext] at repeats
  | autoplay _ _ _ _ autoplay => simp [h.autoplayContext] at autoplay
  | ends => rfl

theorem fillLoop_plain (h : Plain tracks s) (room : Nat) (c : FillCursor) :
    ∃ n, fillLoop room s c =
        (addNext s ((offered (tracks.drop c.newIndex)).take room), .ok ⟨n, c.iteration⟩) ∧
      offered (tracks.drop n) = (offered (tracks.drop c.newIndex)).drop room ∧
      c.newIndex ≤ n ∧ n ≤ max c.newIndex tracks.length ∧
      ((offered (tracks.drop c.newIndex)).length < room → tracks.length ≤ n) := by
  generalize wanted : offered (tracks.drop c.newIndex) = rest
  rcases Nat.lt_or_ge rest.length room with short | enough
  · obtain ⟨more, rfl⟩ := Nat.exists_eq_add_of_lt short
    obtain ⟨n, loop, passed, later, inside⟩ := fillLoop_offered (plain_supplies h) (more + 1)
      rest.length c (by rw [wanted])
    rw [wanted, List.take_length] at loop
    rw [wanted, List.drop_length] at passed
    have ended := @nextFill_ended tracks _ (addNext_plain h rest) ⟨n, c.iteration⟩ passed
    refine ⟨max n tracks.length, ?_, ?_, by omega, by omega, fun _ => Nat.le_max_right ..⟩
    · rw [Nat.add_assoc, Nat.add_comm, loop, fillLoop, ended, List.take_of_length_le (by omega)]
      rfl
    · rw [List.drop_eq_nil_of_le (Nat.le_max_right ..), List.drop_eq_nil_of_le (by omega)]
      rfl
  · obtain ⟨n, loop, passed, later, inside⟩ := fillLoop_offered (plain_supplies h) 0 room c
      (by rwa [wanted])
    rw [wanted] at loop passed
    rw [Nat.zero_add] at loop
    exact ⟨n, loop, passed, later, inside, fun short => absurd short (Nat.not_lt.mpr enough)⟩

/-- Filling up takes the tracks on offer behind the cursor, as many as there is room for. -/
theorem fillUp_offered (h : Plain tracks s) {room : Nat}
    (places : SPOTIFY_MAX_NEXT_TRACKS_SIZE - s.player.nextTracks.length = room) :
    ∃ ctx n, s.context = some ctx ∧ cursor s = ctx.index.track ∧
      s.fillUpNextTracks = ({ addNext s ((offered (tracks.drop (cursor s))).take room) with
        context := some { ctx with index := { ctx.index with track := n } } }, .ok ()) ∧
      offered (tracks.drop n) = (offered (tracks.drop (cursor s))).drop room ∧
      cursor s ≤ n ∧ n ≤ max (cursor s) tracks.length ∧
      ((offered (tracks.drop (cursor s))).length < room → tracks.length ≤ n) := by
  obtain ⟨ctx, hctx, -⟩ := h.context
  have before : cursor s = ctx.index.track := by simp [cursor, hctx]
  obtain ⟨n, hloop, rest⟩ := fillLoop_plain h room ⟨ctx.index.track, ctx.index.page⟩
  rw [← before] at hloop rest
  refine ⟨ctx, n, hctx, before, ?_, rest⟩
  simp only [fillUpNextTracks, h.fillUpContext, getContext, hctx, Option.elim, places, ← before,
    hloop]
  simp [Reply.andThen, updateContextIndex, getContext, addNext, setPlayer, setContext, hctx,
    h.fillUpContext]

/-- What filling up does to the window. -/
structure Fills (tracks : List ProvidedTrack) (s s' : ConnectState) : Prop where
  plain : Plain tracks s'
  track_eq : s'.player.track = s.player.track
  prev_eq : s'.player.prevTracks = s.player.prevTracks
  next_eq : ∃ added, s'.player.nextTracks = s.player.nextTracks ++ added ∧ ∀ t ∈ added, t ∈ tracks
  avail_eq : avail s'.player.nextTracks ++ avail (tracks.drop (cursor s')) =
    avail s.player.nextTracks ++ avail (tracks.drop (cursor s))

theorem fillUp_plain (h : Plain tracks s) :
    ∃ s', s.fillUpNextTracks = (s', .ok ()) ∧ Fills tracks s s' := by
  obtain ⟨ctx, n, hctx, before, filled, rest, -⟩ := fillUp_offered h rfl
  obtain ⟨ctx', hctx', htracks, noInitial⟩ := h.context
  cases hctx.symm.trans hctx'
  refine ⟨_, filled, ⟨⟨⟨_, rfl, htracks, noInitial⟩, h.autoplayContext, h.activeContext,
    h.repeatContext⟩, h.fillUpContext⟩, rfl, rfl, ⟨_, rfl, fun t inside => ?_⟩, ?_⟩
  · exact List.mem_of_mem_drop (List.mem_of_mem_filter (List.mem_of_mem_take inside))
  · change avail (s.player.nextTracks ++ _) ++ avail (tracks.drop n) = _
    rw [avail_append, List.append_assoc, ← avail_offered (tracks.drop n), rest, ← avail_append,
      List.take_append_drop, avail_offered]

/-- The same contexts with other tracks around the current one. -/
def placed (s : ConnectState) (track : Option ProvidedTrack)
    (prevTracks nextTracks : List ProvidedTrack) : ConnectState :=
  s.setPlayer fun p =>
    { p with track := track, prevTracks := prevTracks, nextTracks := nextTracks }

theorem placed_plain (h : Plain tracks s) (track : Option ProvidedTrack)
    (prevTracks nextTracks : List ProvidedTrack) :
    Plain tracks (placed s track prevTracks nextTracks) :=
  ⟨⟨h.context, h.autoplayContext, h.activeContext, h.repeatContext⟩, h.fillUpContext⟩

@[simp] theorem upcoming_placed (tracks : List ProvidedTrack) (s : ConnectState)
    (track : Option ProvidedTrack) (prevTracks nextTracks : List ProvidedTrack) :
    upcoming tracks (placed s track prevTracks nextTracks) =
      avail track.toList ++ avail nextTracks ++ avail (tracks.drop (cursor s)) := rfl

/-- The same tracks in the same places, and the same contexts. -/
structure SameWindow (s s' : ConnectState) : Prop where
  track_eq : s'.player.track = s.player.track
  prev_eq : s'.player.prevTracks = s.player.prevTracks
  next_eq : s'.player.nextTracks = s.player.nextTracks
  context_eq : s'.context = s.context
  autoplay_eq : s'.autoplayContext = s.autoplayContext
  active_eq : s'.activeContext = s.activeContext
  fillUp_eq : s'.fillUpContext = s.fillUpContext
  repeat_eq : s'.repeatContext = s.repeatContext

theorem sameWindow_updateRestrictions (s : ConnectState) : SameWindow s s.updateRestrictions :=
  ⟨rfl, rfl, rfl, rfl, rfl, rfl, rfl, rfl⟩

theorem plain_of_sameWindow (same : SameWindow s s') (h : Plain tracks s) : Plain tracks s' := by
  refine ⟨⟨?_, same.autoplay_eq.trans h.autoplayContext, same.active_eq.trans h.activeContext,
    same.repeat_eq.trans h.repeatContext⟩, same.fillUp_eq.trans h.fillUpContext⟩
  rw [same.context_eq]
  exact h.context

theorem cursor_of_sameWindow (same : SameWindow s s') : cursor s' = cursor s := by
  rw [cursor, same.context_eq, cursor]

theorem upcoming_of_sameWindow (tracks : List ProvidedTrack) (same : SameWindow s s') :
    upcoming tracks s' = upcoming tracks s := by
  simp only [upcoming, cursor, same.track_eq, same.next_eq, same.context_eq]

/-- The state of the runs: a plain context, and no autoplay track around. -/
structure Playing (tracks : List ProvidedTrack) (s : ConnectState) : Prop where
  plain : Plain tracks s
  noAutoplay : NoAutoplay s

theorem playing_of_sameWindow (same : SameWindow s s') (h : Playing tracks s) :
    Playing tracks s' := by
  refine ⟨plain_of_sameWindow same h.plain, ?_⟩
  have noAutoplay := h.noAutoplay
  rw [NoAutoplay] at noAutoplay ⊢
  rw [same.prev_eq, same.track_eq, same.next_eq]
  exact noAutoplay

/-- Tracks go from the front of the window to the previous tracks, or are dropped there. -/
def Advances (tracks : List ProvidedTrack) (s s' : ConnectState) : Prop :=
  ∃ moved dropped, upcoming tracks s = moved ++ upcoming tracks s' ∧
    avail s.player.prevTracks ++ moved = dropped ++ avail s'.player.prevTracks

/-- Tracks come back from the previous tracks. -/
def Returns (tracks : List ProvidedTrack) (s s' : ConnectState) : Prop :=
  ∃ back, avail s.player.prevTracks = avail s'.player.prevTracks ++ back ∧
    upcoming tracks s' = back ++ upcoming tracks s

theorem noAutoplay_default (h : DefaultTracks tracks) (ht : t ∈ tracks) : t.isAutoplay = false := by
  rcases h t ht with provider | provider
  · simp [isAutoplay, provider]
  · simp [isAutoplay, provider]

theorem fills_playing (default : DefaultTracks tracks) (h : Playing tracks s)
    (fills : Fills tracks s s') : Playing tracks s' ∧ upcoming tracks s' = upcoming tracks s := by
  obtain ⟨added, next, inside⟩ := fills.next_eq
  refine ⟨⟨fills.plain, ?_⟩, ?_⟩
  · intro t ht
    rw [fills.prev_eq, fills.track_eq, next, ← List.append_assoc] at ht
    rcases List.mem_append.mp ht with old | new
    · exact h.noAutoplay t old
    · exact noAutoplay_default default (inside t new)
  · simp only [upcoming, fills.track_eq, List.append_assoc]
    rw [fills.avail_eq]

/-- The previous tracks with one more, at most ten of them. -/
def pushed (prevTracks : List ProvidedTrack) (t : ProvidedTrack) : List ProvidedTrack :=
  (if SPOTIFY_MAX_PREV_TRACKS_SIZE ≤ prevTracks.length then prevTracks.drop 1 else prevTracks) ++
    [t]

theorem pushed_suffix (prevTracks : List ProvidedTrack) (t : ProvidedTrack) :
    pushed prevTracks t <:+ prevTracks ++ [t] := by
  rw [pushed]
  split
  · exact ⟨prevTracks.take 1, by rw [← List.append_assoc, List.take_append_drop]⟩
  · exact List.suffix_rfl

/-- The previous tracks with more of them, one after the other. -/
def joined (prevTracks tracks : List ProvidedTrack) : List ProvidedTrack :=
  tracks.foldl pushed prevTracks

theorem joined_suffix (prevTracks tracks : List ProvidedTrack) :
    joined prevTracks tracks <:+ prevTracks ++ tracks := by
  induction tracks generalizing prevTracks with
  | nil => rw [List.append_nil]; exact List.suffix_rfl
  | cons t rest ih =>
    obtain ⟨dropped, first⟩ := pushed_suffix prevTracks t
    refine (ih (pushed prevTracks t)).trans ⟨dropped, ?_⟩
    rw [← List.append_assoc, first, List.append_assoc, List.singleton_append]

/-- Delimiters on the way to the track that is taken become previous tracks. -/
theorem takeNextTrack_eq (nextTracks : List ProvidedTrack) (s : ConnectState) :
    ∃ newTrack passed rest,
      takeNextTrack nextTracks s = (newTrack, placed s s.player.track
        (joined s.player.prevTracks (passed.filter isDelimiter)) rest) ∧
      nextTracks = passed ++ newTrack.toList ++ rest ∧
      (∀ t ∈ passed, t.isDelimiter = true ∨ t.isUnavailable = true) ∧
      (∀ t ∈ newTrack, t.isDelimiter = false ∧ t.isUnavailable = false) ∧
      (newTrack = none → rest = []) := by
  induction nextTracks generalizing s with
  | nil => exact ⟨none, [], [], rfl, rfl, by simp, by simp, fun _ => rfl⟩
  | cons next rest ih =>
    rw [takeNextTrack]
    by_cases delimiter : next.isDelimiter = true
    · obtain ⟨newTrack, passed, rest', taken, rfl, notPlayed, playable, ends⟩ :=
        ih (s.pushPrev next)
      refine ⟨newTrack, next :: passed, rest', ?_, rfl, ?_, playable, ends⟩
      · rw [if_pos delimiter, taken, List.filter_cons_of_pos delimiter]
        rfl
      · exact List.forall_mem_cons.mpr ⟨.inl delimiter, notPlayed⟩
    · rw [if_neg delimiter]
      by_cases unavailable : next.isUnavailable = true
      · obtain ⟨newTrack, passed, rest', taken, rfl, notPlayed, playable, ends⟩ := ih s
        refine ⟨newTrack, next :: passed, rest', ?_, rfl, ?_, playable, ends⟩
        · rw [if_pos unavailable, taken, List.filter_cons_of_neg delimiter]
        · exact List.forall_mem_cons.mpr ⟨.inr unavailable, notPlayed⟩
      · rw [if_neg unavailable]
        refine ⟨some next, [], rest, rfl, rfl, by simp, ?_, nofun⟩
        rintro t ⟨⟩
        exact ⟨by simpa using delimiter, by simpa using unavailable⟩

/-- The previous tracks once the current track has joined them, if it does. -/
def retired (s : ConnectState) : List ProvidedTrack :=
  (s.player.track.filter fun t => t.isContext || t.isAutoplay).elim s.player.prevTracks
    (pushed s.player.prevTracks)

theorem retireTrack_eq (s : ConnectState) :
    s.retireTrack = placed s none (retired s) s.player.nextTracks := by
  unfold retireTrack retired
  cases s.player.track with
  | none => rfl
  | some oldTrack =>
    by_cases kept : (oldTrack.isContext || oldTrack.isAutoplay) = true
    · simp only [if_pos kept, Option.filter_some]
      rfl
    · simp only [if_neg kept, Option.filter_some]
      rfl

theorem retired_suffix (s : ConnectState) : retired s <:+ s.player.prevTracks ++
    (s.player.track.filter fun t => t.isContext || t.isAutoplay).toList := by
  rw [retired]
  cases s.player.track.filter fun t => t.isContext || t.isAutoplay with
  | none => simp
  | some oldTrack => exact pushed_suffix ..

variable {newTrack : ProvidedTrack}

section

variable (s)

theorem startTrack_spec (noAutoplay : newTrack.isAutoplay = false) :
    SameWindow (s.setTrack newTrack) (s.startTrack newTrack).1 := by
  have index : (s.newIndex newTrack).1 = s := by
    simp only [newIndex, noAutoplay]
    split
    · rfl
    · rfl
  simp only [startTrack, index]
  split
  · exact ⟨rfl, rfl, rfl, rfl, rfl, rfl, rfl, rfl⟩
  · exact ⟨rfl, rfl, rfl, rfl, rfl, rfl, rfl, rfl⟩

theorem backTo_spec (newTrack : ProvidedTrack) :
    SameWindow (s.setTrack newTrack) (s.backTo newTrack).1 := by
  simp only [backTo]
  split
  · exact ⟨rfl, rfl, rfl, rfl, rfl, rfl, rfl, rfl⟩
  · exact ⟨rfl, rfl, rfl, rfl, rfl, rfl, rfl, rfl⟩

theorem sameWindow_setRepeatTrack :
    SameWindow s (if s.repeatTrack then s.setRepeatTrack false else s) := by
  split
  · exact ⟨rfl, rfl, rfl, rfl, rfl, rfl, rfl, rfl⟩
  · exact ⟨rfl, rfl, rfl, rfl, rfl, rfl, rfl, rfl⟩

end

theorem placed_playing (h : Playing tracks s) {prevTracks nextTracks : List ProvidedTrack}
    (around : ∀ t ∈ prevTracks ++ nextTracks, t.isAutoplay = false) :
    Playing tracks (placed s none prevTracks nextTracks) := by
  refine ⟨placed_plain h.plain none prevTracks nextTracks, fun t ht => around t ?_⟩
  simpa [placed, setPlayer] using ht

theorem setTrack_playing (h : Playing tracks s) (absent : s.player.track = none)
    (noAutoplay : newTrack.isAutoplay = false) (same : SameWindow (s.setTrack newTrack) s') :
    Playing tracks s' ∧ upcoming tracks s' = avail [newTrack] ++ upcoming tracks s ∧
      s'.player.prevTracks = s.player.prevTracks := by
  have placedTrack : Playing tracks (s.setTrack newTrack) := by
    refine ⟨placed_plain h.plain (some newTrack) s.player.prevTracks s.player.nextTracks, ?_⟩
    intro t ht
    have around := h.noAutoplay t
    simp only [setTrack, setPlayer, Option.toList_some, List.mem_append, List.mem_singleton] at ht
    simp only [absent, Option.toList_none, List.mem_append, List.append_nil] at around
    rcases ht with (old | rfl) | old
    · exact around (Or.inl old)
    · exact noAutoplay
    · exact around (Or.inr old)
  refine ⟨playing_of_sameWindow same placedTrack, ?_, same.prev_eq⟩
  rw [upcoming_of_sameWindow tracks same]
  simp [upcoming, absent, setTrack, setPlayer, cursor]

theorem avail_kept (track : Option ProvidedTrack) :
    avail (track.filter fun t => t.isContext || t.isAutoplay).toList = avail track.toList := by
  cases track with
  | none => rfl
  | some t =>
    rw [Option.filter_some]
    split
    · rfl
    · next other =>
      simp only [Bool.or_eq_true, not_or] at other
      simp [avail, other.1]

theorem avail_delimiters {passed : List ProvidedTrack}
    (notPlayed : ∀ t ∈ passed, t.isDelimiter = true ∨ t.isUnavailable = true) :
    avail (passed.filter isDelimiter) = avail passed := by
  rw [avail, avail, List.filter_filter]
  refine List.filter_congr fun t inside => ?_
  rcases notPlayed t inside with delimiter | unavailable
  · rw [delimiter, Bool.and_true]
  · simp only [isUnavailable, beq_iff_eq] at unavailable
    simp [isContext, unavailable]

theorem retired_advances (default : DefaultTracks tracks) (h : Playing tracks s) :
    let s' := (match takeNextTrack s.retireTrack.player.nextTracks s.retireTrack with
      | (none, s) => ((s, .ok none) : Reply (Option Nat))
      | (some newTrack, s) => s.fillUpNextTracks.andThen fun s _ => s.startTrack newTrack).1
    Playing tracks s' ∧ Advances tracks s s' := by
  obtain ⟨newTrack, passed, rest, taken, split, notPlayed, -⟩ := takeNextTrack_eq
    s.player.nextTracks (placed s none (retired s) s.player.nextTracks)
  generalize joined_eq : joined _ (passed.filter isDelimiter) = prev₂ at taken
  let s₂ := placed s none prev₂ rest
  have taken : takeNextTrack s.retireTrack.player.nextTracks s.retireTrack = (newTrack, s₂) := by
    rw [retireTrack_eq]
    exact taken
  rw [taken]
  have suffix : prev₂ <:+ s.player.prevTracks ++
      (s.player.track.filter fun t => t.isContext || t.isAutoplay).toList ++
        passed.filter isDelimiter := by
    obtain ⟨dropped, before⟩ := retired_suffix s
    rw [← joined_eq]
    refine (joined_suffix ..).trans ⟨dropped, ?_⟩
    rw [← List.append_assoc]
    exact congrArg (· ++ passed.filter isDelimiter) before
  obtain ⟨dropped, prev⟩ : ∃ dropped, avail s.player.prevTracks ++
      (avail s.player.track.toList ++ avail passed) = dropped ++ avail prev₂ := by
    obtain ⟨dropped, whole⟩ := suffix
    have both := congrArg avail whole
    rw [avail_append, avail_append, avail_append, avail_delimiters notPlayed, avail_kept,
      List.append_assoc] at both
    exact ⟨avail dropped, both.symm⟩
  have upcoming_eq : upcoming tracks s = avail s.player.track.toList ++ avail passed ++
      (avail newTrack.toList ++ (avail rest ++ avail (tracks.drop (cursor s)))) := by
    simp only [upcoming, split, avail_append, List.append_assoc]
  have around : ∀ t ∈ prev₂ ++ newTrack.toList ++ rest, t.isAutoplay = false := by
    intro t ht
    refine h.noAutoplay t ?_
    rw [List.append_assoc] at ht
    rcases List.mem_append.mp ht with old | new
    · rcases List.mem_append.mp (suffix.subset old) with before | delimiter
      · rcases List.mem_append.mp before with before | current
        · simp [before]
        · simp [(Option.filter_eq_some_iff.mp (Option.mem_toList.mp current)).1]
      · simp [split, List.mem_of_mem_filter delimiter]
    · rw [split, List.append_assoc passed]
      exact List.mem_append_right _ (List.mem_append_right _ new)
  have playing₂ : Playing tracks s₂ := placed_playing h fun t ht => around t
    (((List.sublist_append_left _ _).append_right _).subset ht)
  cases newTrack with
  | none =>
    refine ⟨playing₂, avail s.player.track.toList ++ avail passed, dropped, ?_, prev⟩
    rw [upcoming_eq]
    rfl
  | some t =>
    obtain ⟨s₃, hfill, fills⟩ := fillUp_plain playing₂.plain
    obtain ⟨playing₃, same₃⟩ := fills_playing default playing₂ fills
    have noAutoplay : t.isAutoplay = false := around t (by simp)
    obtain ⟨playing₄, front₄, prev₄⟩ :=
      setTrack_playing playing₃ fills.track_eq noAutoplay (startTrack_spec s₃ noAutoplay)
    simp only [hfill, Reply.andThen]
    refine ⟨playing₄, avail s.player.track.toList ++ avail passed, dropped, ?_, ?_⟩
    · rw [front₄, same₃, upcoming_eq]
      rfl
    · rw [prev₄, fills.prev_eq]
      exact prev

theorem nextTrack_advances (default : DefaultTracks tracks) (h : Playing tracks s) :
    Playing tracks s.nextTrack.1 ∧ Advances tracks s s.nextTrack.1 := by
  have same := sameWindow_setRepeatTrack s
  obtain ⟨playing, moved, dropped, front, prev⟩ :=
    retired_advances default (playing_of_sameWindow same h)
  refine ⟨playing, moved, dropped, ?_, ?_⟩
  · rw [← upcoming_of_sameWindow tracks same]
    exact front
  · rw [← same.prev_eq]
    exact prev

/-- The delimiter that `prev_track` finds at the end of the previous tracks. -/
def lastDelimiter (s : ConnectState) : List ProvidedTrack :=
  (s.player.prevTracks.getLast?.filter ProvidedTrack.isDelimiter).toList

/-- The next tracks of `prev_track` before they are cut to their limit. -/
def reinserted (s : ConnectState) : List ProvidedTrack :=
  lastDelimiter s ++ (s.player.track.filter fun t => t.isContext || t.isAutoplay).toList ++
    s.player.nextTracks

theorem reinsertTrack_eq (s : ConnectState) :
    s.reinsertTrack = placed s none s.player.prevTracks
      ((s.player.track.filter fun t => t.isContext || t.isAutoplay).toList ++
        s.player.nextTracks) := by
  unfold reinsertTrack
  cases htrack : s.player.track with
  | none => rfl
  | some oldTrack =>
    by_cases kept : (oldTrack.isContext || oldTrack.isAutoplay) = true
    · simp only [Option.filter_some, kept]
      rfl
    · simp only [if_neg kept, Option.filter_some]
      rfl

theorem returnDelimiter_spec (s : ConnectState) :
    ∃ prevTracks, s.player.prevTracks = prevTracks ++ lastDelimiter s ∧
      s.returnDelimiter.trimNextTracks = placed s s.player.track prevTracks
        ((lastDelimiter s ++ s.player.nextTracks).take SPOTIFY_MAX_NEXT_TRACKS_SIZE) := by
  unfold returnDelimiter lastDelimiter
  cases hlast : s.player.prevTracks.getLast? with
  | none => exact ⟨s.player.prevTracks, by simp, rfl⟩
  | some delimiter =>
    by_cases found : delimiter.isDelimiter = true
    · refine ⟨s.player.prevTracks.dropLast, ?_, ?_⟩
      · simp only [Option.filter_some, found, if_true, Option.toList_some]
        exact (List.dropLast_append_getLast? delimiter hlast).symm
      · simp only [Option.filter_some, found, if_true, Option.toList_some, placed,
          trimNextTracks, setPlayer]
        -- popping one track before the delimiter goes in changes nothing in the end
        by_cases full : SPOTIFY_MAX_NEXT_TRACKS_SIZE ≤ s.player.nextTracks.length
        · have cut : (delimiter :: s.player.nextTracks.dropLast).take SPOTIFY_MAX_NEXT_TRACKS_SIZE =
              (delimiter :: s.player.nextTracks).take SPOTIFY_MAX_NEXT_TRACKS_SIZE := by
            have limit : SPOTIFY_MAX_NEXT_TRACKS_SIZE = 79 + 1 := rfl
            rw [limit, List.take_succ_cons, List.take_succ_cons, List.dropLast_eq_take,
              List.take_take]
            rw [limit] at full
            congr 2
            omega
          simp only [if_pos full, cut]
          rfl
        · simp only [if_neg full]
          rfl
    · refine ⟨s.player.prevTracks, ?_, ?_⟩
      · simp [Option.filter_some, found]
      · simp only [Option.filter_some, found]
        rfl

theorem returned_eq (s : ConnectState) :
    ∃ prevTracks, s.player.prevTracks = prevTracks ++ lastDelimiter s ∧
      s.reinsertTrack.returnDelimiter.trimNextTracks = placed s none prevTracks
        ((reinserted s).take SPOTIFY_MAX_NEXT_TRACKS_SIZE) := by
  obtain ⟨prevTracks, prev, returned⟩ := returnDelimiter_spec s.reinsertTrack
  rw [reinsertTrack_eq] at prev returned
  refine ⟨prevTracks, prev, ?_⟩
  rw [reinsertTrack_eq, returned]
  simp only [reinserted, List.append_assoc]
  rfl

theorem tracksBefore_mem {newIndex : Nat} (inside : t ∈ tracksBefore tracks newIndex) :
    t ∈ tracks :=
  List.mem_reverse.mp (List.mem_of_mem_drop (List.mem_of_mem_take (List.mem_reverse.mp inside)))

theorem mem_reinserted (inside : t ∈ reinserted s) :
    t ∈ lastDelimiter s ∨ t ∈ s.player.track ∨ t ∈ s.player.nextTracks := by
  simp only [reinserted, List.mem_append, Option.mem_toList] at inside
  rcases inside with (delimiter | current) | next
  · exact Or.inl delimiter
  · exact Or.inr (Or.inl (Option.filter_eq_some_iff.mp current).1)
  · exact Or.inr (Or.inr next)

theorem avail_reinserted (s : ConnectState) :
    avail (reinserted s) =
      avail (lastDelimiter s) ++ avail s.player.track.toList ++ avail s.player.nextTracks := by
  rw [reinserted, avail_append, avail_append, avail_kept]

/-- What follows once the previous track has been taken. -/
def playReturned (s : ConnectState) (newTrack : ProvidedTrack) : Reply (Option ProvidedTrack) :=
  let s := if s.activeContext = .autoplay ∧ newTrack.isContext then s.setActiveContext .default
    else s
  s.fillUpNextTracks.andThen fun s _ => s.backTo newTrack

theorem prevTrack_eq (s : ConnectState) :
    ∃ prevTracks, s.player.prevTracks = prevTracks ++ lastDelimiter s ∧
      s.prevTrack = match prevTracks.getLast? with
        | none => (placed s none prevTracks ((reinserted s).take SPOTIFY_MAX_NEXT_TRACKS_SIZE),
            .ok none)
        | some newTrack => playReturned (placed s none prevTracks.dropLast
            ((reinserted s).take SPOTIFY_MAX_NEXT_TRACKS_SIZE)) newTrack := by
  obtain ⟨prevTracks, prev, returned⟩ := returned_eq s
  refine ⟨prevTracks, prev, ?_⟩
  rw [prevTrack, returned]
  rfl

theorem prevTrack_returns (default : DefaultTracks tracks) (h : Playing tracks s)
    (kept : ((reinserted s).drop SPOTIFY_MAX_NEXT_TRACKS_SIZE).any isContext = false) :
    Playing tracks s.prevTrack.1 ∧ Returns tracks s s.prevTrack.1 := by
  obtain ⟨prevTracks, prev_eq, result⟩ := prevTrack_eq s
  rw [result]
  generalize cut : (reinserted s).take SPOTIFY_MAX_NEXT_TRACKS_SIZE = next
  -- nothing playable is popped from the back
  have next_eq : avail next ++ avail (tracks.drop (cursor s)) =
      avail (lastDelimiter s) ++ upcoming tracks s := by
    rw [← cut, avail_take kept, avail_reinserted]
    simp only [upcoming, List.append_assoc]
  have around : ∀ t ∈ prevTracks ++ next, t.isAutoplay = false := by
    intro t ht
    refine h.noAutoplay t ?_
    rw [prev_eq]
    rcases List.mem_append.mp ht with old | new
    · simp [old]
    · rw [← cut] at new
      rcases mem_reinserted (List.mem_of_mem_take new) with delimiter | current | old
      · simp [delimiter]
      · simp [Option.mem_def.mp current]
      · simp [old]
  cases hlast : prevTracks.getLast? with
  | none =>
    refine ⟨placed_playing h around, avail (lastDelimiter s), ?_, next_eq⟩
    rw [prev_eq, avail_append]
    rfl
  | some newTrack =>
    have split : prevTracks.dropLast ++ [newTrack] = prevTracks :=
      List.dropLast_append_getLast? newTrack hlast
    have playing : Playing tracks (placed s none prevTracks.dropLast next) :=
      placed_playing h fun t ht => around t
        (((List.dropLast_sublist _).append_right _).subset ht)
    obtain ⟨s₃, hfill, fills⟩ := fillUp_plain playing.plain
    obtain ⟨playing₃, same₃⟩ := fills_playing default playing fills
    have noAutoplay : newTrack.isAutoplay = false := around newTrack (by rw [← split]; simp)
    obtain ⟨playing₄, front₄, prev₄⟩ :=
      setTrack_playing playing₃ fills.track_eq noAutoplay (backTo_spec s₃ newTrack)
    have here : ¬ ((placed s none prevTracks.dropLast next).activeContext = .autoplay ∧
        newTrack.isContext = true) := by
      simp [placed, setPlayer, h.plain.activeContext]
    simp only [playReturned, if_neg here, hfill, Reply.andThen]
    refine ⟨playing₄, avail [newTrack] ++ avail (lastDelimiter s), ?_, ?_⟩
    · rw [prev₄, fills.prev_eq, prev_eq, ← split, avail_append, avail_append]
      simp only [placed, setPlayer, List.append_assoc, split]
    · rw [front₄, same₃, upcoming_placed, List.append_assoc (avail [newTrack]), ← next_eq]
      rfl

end ContextWindow
