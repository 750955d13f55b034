import SqueezeboxConnect.ConnectDeck
import SqueezeboxConnect.ContextRuns

/-!
# The rounds of filling up

`fill_up_next_tracks` loops: a round passes a track over, adds a track or a
delimiter, goes over to the autoplay context or leaves the loop. Here the loop
is run round by round, with a limit on the rounds. A round that adds nothing
moves the cursor towards the end of the context, and there is room for eighty
tracks, so the loop ends within a number of rounds that is known beforehand.
-/

namespace FillRounds

open Connect ConnectState ConnectDeck Words
open ContextWindow (default_of_loaded no_autoplay_left)

def pushNext (s : ConnectState) (track : ProvidedTrack) : ConnectState :=
  s.setPlayer fun p => { p with nextTracks := p.nextTracks ++ [track] }

/-- One round of the loop. Without a cursor the loop is left. -/
def fillRound (s : ConnectState) (c : FillCursor) : Reply (Option FillCursor) :=
  match s.getContext s.fillUpContext with
  | .error e => (s, .error e)
  | .ok ctx =>
    match ctx.tracks.vec[c.newIndex]? with
    | none =>
      if s.repeatContext then
        (pushNext s (newDelimiter c.iteration), .ok (some ⟨0, wrappingAdd c.iteration 1⟩))
      else if s.fillUpContext ≠ .autoplay ∧ s.autoplayContext.isSome then
        (s.updateContextIndex s.fillUpContext c.newIndex).andThen fun s _ =>
          let s := { s with fillUpContext := .autoplay }
          match s.getContext .autoplay with
          | .error e => (s, .error e)
          | .ok autoplay => (pushNext s (newDelimiter c.iteration),
              .ok (some { c with newIndex := autoplay.index.track }))
      else if s.autoplayContext.isSome then
        match s.getContext .autoplay with
        | .error e => (s, .error e)
        | .ok autoplay =>
          match autoplay.tracks.vec[c.newIndex]? with
          | none => (s, .ok none)
          | some ct => (pushNext s ct, .ok (some { c with newIndex := c.newIndex + 1 }))
      else (s, .ok none)
    | some ct =>
      if ct.isUnavailable || s.isSkipTrack ct (some c.iteration) then
        (s, .ok (some { c with newIndex := c.newIndex + 1 }))
      else (pushNext s ct, .ok (some { c with newIndex := c.newIndex + 1 }))

/-- The loop, for at most a number of rounds. -/
def fillRounds : Nat → ConnectState → FillCursor → Option (Reply FillCursor)
  | 0, _, _ => none
  | fuel + 1, s, c =>
    if SPOTIFY_MAX_NEXT_TRACKS_SIZE ≤ s.player.nextTracks.length then some (s, .ok c)
    else
      match fillRound s c with
      | (s, .error e) => some (s, .error e)
      | (s, .ok none) => some (s, .ok c)
      | (s, .ok (some c)) => fillRounds fuel s c

def fillUpRounds (fuel : Nat) (s : ConnectState) : Option (Reply Unit) :=
  match s.getContext s.fillUpContext with
  | .error e => some (s, .error e)
  | .ok ctx =>
    (fillRounds fuel s ⟨ctx.index.track, ctx.index.page⟩).map fun reply =>
      reply.andThen fun s c => s.updateContextIndex s.fillUpContext c.newIndex

/-- The state and the cursor at the head of a round. -/
inductive Visits (start : ConnectState) : ConnectState → FillCursor → Prop
  | first {ctx : StateContext} (loaded : start.getContext start.fillUpContext = .ok ctx) :
      Visits start start ⟨ctx.index.track, ctx.index.page⟩
  | next {s s' : ConnectState} {c c' : FillCursor} (visited : Visits start s c)
      (room : s.player.nextTracks.length < SPOTIFY_MAX_NEXT_TRACKS_SIZE)
      (round : fillRound s c = (s', .ok (some c'))) : Visits start s' c'

/-- The track at the cursor can be played and is not the one to be skipped. -/
def Taken (s : ConnectState) (c : FillCursor) (t : ProvidedTrack) : Prop :=
  ∃ ctx, s.getContext s.fillUpContext = .ok ctx ∧ ctx.tracks.vec[c.newIndex]? = some t ∧
    t.isUnavailable = false ∧ s.isSkipTrack t (some c.iteration) = false

/-- What a round adds: a delimiter, or the track at the cursor. -/
def Adds (s : ConnectState) (c : FillCursor) (t : ProvidedTrack) : Prop :=
  t = newDelimiter c.iteration ∨ Taken s c t

/-- What a round does while the fill-up context is loaded. -/
inductive Round (s : ConnectState) (c : FillCursor) : Reply (Option FillCursor) → Prop
  | leaves (same : s.nextFill c = (s, .ok (none, c))) : Round s c (s, .ok none)
  | passes {ctx : StateContext} (loaded : s.getContext s.fillUpContext = .ok ctx)
      (inside : c.newIndex < ctx.tracks.vec.length)
      (same : s.nextFill c = s.nextFill { c with newIndex := c.newIndex + 1 }) :
      Round s c (s, .ok (some { c with newIndex := c.newIndex + 1 }))
  | adds {s₁ : ConnectState} {t : ProvidedTrack} {c' : FillCursor} {fillUp : ContextType}
      {i j : Nat} (state : s₁ = refilled s [] fillUp i j) (loaded : Loaded s₁) (added : Adds s c t)
      (same : c.iteration + 1 < usizeSize →
        s.nextFill c = (s₁, .ok (some t, c')) ∧ c'.iteration ≤ c.iteration + 1) :
      Round s c (pushNext s₁ t, .ok (some c'))

variable {s start : ConnectState} {c : FillCursor} {t : ProvidedTrack} {ctx : StateContext}
  {tracks : List ProvidedTrack}

theorem skipped_stop (stops : ∀ t, tracks[c.newIndex]? = some t →
      (t.isUnavailable || s.isSkipTrack t (some c.iteration)) = false) :
    s.skipped tracks c = 0 := by
  rw [skipped]
  cases rest : tracks.drop c.newIndex with
  | nil => rfl
  | cons t more =>
    have found : tracks[c.newIndex]? = some t := by
      rw [← List.head?_drop, rest, List.head?_cons]
    rw [List.takeWhile_cons_of_neg (by simp [stops t found]), List.length_nil]

theorem skipped_pass (found : tracks[c.newIndex]? = some t)
    (passes : (t.isUnavailable || s.isSkipTrack t (some c.iteration)) = true) :
    s.skipped tracks c = s.skipped tracks { c with newIndex := c.newIndex + 1 } + 1 := by
  obtain ⟨inside, rfl⟩ := List.getElem?_eq_some_iff.mp found
  rw [skipped, skipped, List.drop_eq_getElem_cons inside,
    List.takeWhile_cons_of_pos (by exact passes),
    List.length_cons]

section

variable (loaded : s.getContext s.fillUpContext = .ok ctx)
include loaded

theorem nextFill_pass (found : ctx.tracks.vec[c.newIndex]? = some t)
    (passes : (t.isUnavailable || s.isSkipTrack t (some c.iteration)) = true) :
    s.nextFill c = s.nextFill { c with newIndex := c.newIndex + 1 } := by
  have further : c.newIndex + s.skipped ctx.tracks.vec c =
      c.newIndex + 1 + s.skipped ctx.tracks.vec { c with newIndex := c.newIndex + 1 } := by
    rw [skipped_pass found passes]
    omega
  simp only [nextFill, loaded, further]

theorem fillRound_inside {ct : ProvidedTrack} (found : ctx.tracks.vec[c.newIndex]? = some ct) :
    Round s c (fillRound s c) := by
  obtain ⟨i, j, self⟩ := refilled_self s
  rw [fillRound, loaded]
  dsimp only
  rw [found]
  dsimp only
  by_cases passes : (ct.isUnavailable || s.isSkipTrack ct (some c.iteration)) = true
  · rw [if_pos passes]
    exact .passes loaded (List.getElem?_eq_some_iff.mp found).1 (nextFill_pass loaded found passes)
  · rw [if_neg passes]
    have stays : (ct.isUnavailable || s.isSkipTrack ct (some c.iteration)) = false := by
      simpa using passes
    have taken : Taken s c ct := ⟨ctx, loaded, found, by simpa using stays⟩
    have nothing : s.skipped ctx.tracks.vec c = 0 := by
      apply skipped_stop
      rintro t same
      obtain rfl := Option.some.inj (found.symm.trans same)
      exact stays
    refine .adds self ⟨ctx, loaded⟩ (.inr taken) fun _ => ⟨?_, Nat.le_succ _⟩
    simp only [nextFill, loaded, nothing, Nat.add_zero, found]

theorem fillRound_behind (found : ctx.tracks.vec[c.newIndex]? = none) :
    Round s c (fillRound s c) := by
  obtain ⟨i, j, self⟩ := refilled_self s
  have nothing : s.skipped ctx.tracks.vec c = 0 :=
    skipped_stop fun t same => by simp [found] at same
  rw [fillRound, loaded]
  dsimp only
  rw [found]
  dsimp only
  by_cases repeats : s.repeatContext = true
  · rw [if_pos repeats]
    refine .adds self ⟨ctx, loaded⟩ (.inl rfl) fun small => ?_
    have next : wrappingAdd c.iteration 1 = c.iteration + 1 := Nat.mod_eq_of_lt small
    refine ⟨?_, next.le⟩
    simp only [nextFill, loaded, nothing, Nat.add_zero, found, if_pos repeats, next]
  · rw [if_neg repeats]
    by_cases autoplays : s.fillUpContext ≠ .autoplay ∧ s.autoplayContext.isSome = true
    · rw [if_pos autoplays]
      obtain ⟨autoplay, ha⟩ := Option.isSome_iff_exists.mp autoplays.2
      obtain ⟨isDefault, hs⟩ := default_of_loaded loaded autoplays.1
      have moved : s.updateContextIndex s.fillUpContext c.newIndex =
          ({ s with context := some (ctx.moveTo c.newIndex) }, .ok ()) := by
        simp only [updateContextIndex, loaded]
        simp only [isDefault, setContext]
        rfl
      let s₁ : ConnectState :=
        { s with context := some (ctx.moveTo c.newIndex), fillUpContext := .autoplay }
      have hauto : s₁.getContext .autoplay = .ok autoplay := by simp [s₁, getContext, ha]
      have state : s₁ = refilled s [] .autoplay c.newIndex autoplay.index.track := by
        simp [s₁, refilled, StateContext.moveTo, hs, ha]
      simp only [moved, Reply.andThen]
      rw [hauto]
      refine .adds state ⟨autoplay, hauto⟩ (.inl rfl) fun _ => ⟨?_, Nat.le_succ _⟩
      simp only [nextFill, loaded, nothing, Nat.add_zero, found, if_neg repeats, if_pos autoplays,
        moved, Reply.andThen]
      rw [hauto]
    · have left := no_autoplay_left loaded found autoplays
      have same : s.nextFill c = (s, .ok (none, c)) := by
        simp only [nextFill, loaded, nothing, Nat.add_zero, found, if_neg repeats,
          if_neg autoplays, left]
      rw [if_neg autoplays]
      split
      · rename_i isLoaded
        obtain ⟨autoplay, ha⟩ := Option.isSome_iff_exists.mp isLoaded
        rw [ha] at left
        simp only [getContext, ha, Option.elim]
        rw [show autoplay.tracks.vec[c.newIndex]? = none from left]
        exact .leaves same
      · exact .leaves same

end

theorem fillRound_round (loaded : Loaded s) (c : FillCursor) : Round s c (fillRound s c) := by
  obtain ⟨ctx, loaded⟩ := loaded
  cases found : ctx.tracks.vec[c.newIndex]? with
  | some ct => exact fillRound_inside loaded found
  | none => exact fillRound_behind loaded found

def room (s : ConnectState) : Nat := SPOTIFY_MAX_NEXT_TRACKS_SIZE - s.player.nextTracks.length

/-- Every round lowers this: it takes a place or a track of the context. -/
def left (s : ConnectState) (c : FillCursor) : Nat :=
  room s * ((stock s).length + 1) + ((stock s).length - c.newIndex)

def roundLimit (s : ConnectState) : Nat :=
  (SPOTIFY_MAX_NEXT_TRACKS_SIZE + 1) * ((stock s).length + 1)

theorem left_lt_roundLimit (s : ConnectState) (c : FillCursor) : left s c < roundLimit s := by
  have places : room s ≤ SPOTIFY_MAX_NEXT_TRACKS_SIZE := Nat.sub_le _ _
  have whole := Nat.mul_le_mul_right ((stock s).length + 1) places
  rw [left, roundLimit, Nat.add_mul, Nat.one_mul]
  omega

theorem pushNext_refilled (s : ConnectState) (t : ProvidedTrack) (fillUp : ContextType)
    (i j : Nat) : pushNext (refilled s [] fillUp i j) t = refilled s [t] fillUp i j := by
  simp [pushNext, refilled, setPlayer]

/-- What the loop does from the head of a round on. -/
structure Fills (start s : ConnectState) (c : FillCursor) (added : List ProvidedTrack)
    (s' : ConnectState) (c' : FillCursor) : Prop where
  returns : ∀ fuel, left s c < fuel → fillRounds fuel s c = some (s', .ok c')
  state : ∃ fillUp i j, s' = refilled s added fillUp i j
  loaded : Loaded s'
  bounded : s.player.nextTracks.length + added.length ≤ SPOTIFY_MAX_NEXT_TRACKS_SIZE
  taken : ∀ front t back, added = front ++ t :: back → ∃ m k, Visits start m k ∧
    m.player.nextTracks = s.player.nextTracks ++ front ∧ Adds m k t
  same : c.iteration + room s < usizeSize → fillLoop (room s) s c = (s', .ok c')

theorem fills_stop (loaded : Loaded s)
    (bounded : s.player.nextTracks.length ≤ SPOTIFY_MAX_NEXT_TRACKS_SIZE)
    (returns : ∀ fuel, fillRounds (fuel + 1) s c = some (s, .ok c))
    (same : fillLoop (room s) s c = (s, .ok c)) : Fills start s c [] s c := by
  obtain ⟨i, j, self⟩ := refilled_self s
  refine ⟨?_, ⟨_, i, j, self⟩, loaded, bounded, by simp, fun _ => same⟩
  rintro (_ | fuel) enough
  · omega
  · exact returns fuel

theorem fills_pass {s' : ConnectState} {c₁ c' : FillCursor} {added : List ProvidedTrack}
    (free : ¬ SPOTIFY_MAX_NEXT_TRACKS_SIZE ≤ s.player.nextTracks.length)
    (round : fillRound s c = (s, .ok (some c₁))) (lower : left s c₁ < left s c)
    (next : s.nextFill c = s.nextFill c₁) (iteration : c₁.iteration = c.iteration)
    (rest : Fills start s c₁ added s' c') : Fills start s c added s' c' := by
  refine ⟨?_, rest.state, rest.loaded, rest.bounded, rest.taken, ?_⟩
  · rintro (_ | fuel) enough
    · omega
    · rw [fillRounds, if_neg free, round]
      exact rest.returns fuel (by omega)
  · intro small
    obtain ⟨places, more⟩ : ∃ places, room s = places + 1 :=
      Nat.exists_eq_add_one.mpr (Nat.sub_pos_of_lt (Nat.lt_of_not_le free))
    have later := rest.same (by rwa [iteration])
    rw [more, fillLoop] at later ⊢
    rwa [next]

theorem fills_add {s₁ s' : ConnectState} {c₁ c' : FillCursor} {more : List ProvidedTrack}
    {fillUp : ContextType} {i j : Nat} (visited : Visits start s c)
    (free : ¬ SPOTIFY_MAX_NEXT_TRACKS_SIZE ≤ s.player.nextTracks.length)
    (state : s₁ = refilled s [] fillUp i j) (round : fillRound s c = (pushNext s₁ t, .ok (some c₁)))
    (lower : left (pushNext s₁ t) c₁ < left s c) (adds : Adds s c t)
    (next : c.iteration + 1 < usizeSize →
      s.nextFill c = (s₁, .ok (some t, c₁)) ∧ c₁.iteration ≤ c.iteration + 1)
    (rest : Fills start (pushNext s₁ t) c₁ more s' c') : Fills start s c (t :: more) s' c' := by
  subst state
  rw [pushNext_refilled] at round lower rest
  have length : (refilled s [t] fillUp i j).player.nextTracks.length =
      s.player.nextTracks.length + 1 := by
    simp [refilled]
  have places : room s = room (refilled s [t] fillUp i j) + 1 := by
    rw [room, room, length]
    omega
  refine ⟨?_, ?_, rest.loaded, ?_, ?_, ?_⟩
  · rintro (_ | fuel) enough
    · omega
    · rw [fillRounds, if_neg free, round]
      exact rest.returns fuel (by omega)
  · obtain ⟨fillUp', i', j', later⟩ := rest.state
    exact ⟨fillUp', i', j', by rw [later, refilled_refilled, List.singleton_append]⟩
  · have bounded := rest.bounded
    rw [length] at bounded
    simp only [List.length_cons]
    omega
  · intro front u back split
    cases front with
    | nil =>
      obtain ⟨rfl, -⟩ := List.cons.inj split
      exact ⟨s, c, visited, by simp, adds⟩
    | cons first front =>
      obtain ⟨rfl, tail⟩ := List.cons.inj split
      obtain ⟨m, k, reached, before, added⟩ := rest.taken front u back tail
      exact ⟨m, k, reached, by simp [before, refilled], added⟩
  · intro small
    obtain ⟨here, iteration⟩ := next (by omega)
    have later := rest.same (by omega)
    rw [places, fillLoop, here]
    simp only [Reply.andThen]
    rw [← later, ← pushNext_refilled]
    rfl

theorem rounds_end (start : ConnectState) (n : Nat) (s : ConnectState) (c : FillCursor)
    (measure : left s c = n) (loaded : Loaded s)
    (few : s.player.nextTracks.length ≤ SPOTIFY_MAX_NEXT_TRACKS_SIZE) (visited : Visits start s c) :
    ∃ added s' c', Fills start s c added s' c' := by
  induction n using Nat.strong_induction_on generalizing s c with
  | _ n ih =>
    subst measure
    by_cases full : SPOTIFY_MAX_NEXT_TRACKS_SIZE ≤ s.player.nextTracks.length
    · refine ⟨[], s, c, fills_stop loaded few (fun fuel => by rw [fillRounds, if_pos full]) ?_⟩
      rw [room, Nat.sub_eq_zero_of_le full, fillLoop]
    · have free := Nat.lt_of_not_le full
      have round := fillRound_round loaded c
      generalize outcome : fillRound s c = reply at round
      cases round with
      | leaves same =>
        refine ⟨[], s, c, fills_stop loaded few (fun fuel => ?_) ?_⟩
        · rw [fillRounds, if_neg full, outcome]
        · obtain ⟨places, more⟩ : ∃ places, room s = places + 1 :=
            Nat.exists_eq_add_one.mpr (Nat.sub_pos_of_lt free)
          rw [more, fillLoop, same]
          rfl
      | @passes ctx hctx inside same =>
        have length := (sublist_stock hctx).length_le
        have lower : left s { c with newIndex := c.newIndex + 1 } < left s c := by
          simp only [left]
          omega
        obtain ⟨added, s', c', rest⟩ := ih _ lower s _ rfl loaded few (visited.next free outcome)
        exact ⟨added, s', c', fills_pass full outcome lower same rfl rest⟩
      | @adds s₁ t c₁ fillUp i j state loaded₁ adds same =>
        have pushed : pushNext s₁ t = refilled s [t] fillUp i j := by
          rw [state, pushNext_refilled]
        have length : (pushNext s₁ t).player.nextTracks.length =
            s.player.nextTracks.length + 1 := by
          simp [pushed, refilled]
        have lower : left (pushNext s₁ t) c₁ < left s c := by
          have places : room s = room (pushNext s₁ t) + 1 := by
            rw [room, room, length]
            omega
          simp only [left, places, pushed, stock_refilled, Nat.add_mul, Nat.one_mul]
          omega
        obtain ⟨more, s', c', rest⟩ :=
          ih _ lower (pushNext s₁ t) c₁ rfl loaded₁ (by omega) (visited.next free outcome)
        exact ⟨t :: more, s', c', fills_add visited full state outcome lower adds same rest⟩

theorem visits_sameContexts (visited : Visits start s c) (loaded : Loaded start) :
    SameContexts start s ∧ Loaded s := by
  induction visited with
  | first => exact ⟨sameContexts_refl start, loaded⟩
  | @next s s' c c' visited free outcome ih =>
    obtain ⟨contexts, loaded'⟩ := ih
    have round := fillRound_round loaded' c
    rw [outcome] at round
    cases round with
    | passes => exact ⟨contexts, loaded'⟩
    | @adds s₁ t _ fillUp i j state loaded₁ =>
      refine ⟨?_, loaded₁⟩
      rw [state, pushNext_refilled]
      exact sameContexts_trans contexts (sameContexts_refilled ..)

theorem taken_mem_stock (loaded : Loaded start) (visited : Visits start s c) (taken : Taken s c t) :
    t ∈ stock start := by
  obtain ⟨ctx, hctx, found, -⟩ := taken
  rw [← stock_sameContexts (visits_sameContexts visited loaded).1]
  exact mem_stock hctx (List.mem_of_getElem? found)

theorem fillUpRounds_fills (loaded : s.getContext s.fillUpContext = .ok ctx)
    (few : s.player.nextTracks.length ≤ SPOTIFY_MAX_NEXT_TRACKS_SIZE) :
    ∃ added s₁ c' s', Fills s s ⟨ctx.index.track, ctx.index.page⟩ added s₁ c' ∧
      s₁.updateContextIndex s₁.fillUpContext c'.newIndex = (s', .ok ()) ∧
      s'.player = s₁.player ∧
      ∀ fuel, roundLimit s ≤ fuel → fillUpRounds fuel s = some (s', .ok ()) := by
  obtain ⟨added, s₁, c', fills⟩ := rounds_end s _ s _ rfl ⟨ctx, loaded⟩ few (.first loaded)
  obtain ⟨ctx', loaded'⟩ := fills.loaded
  have moved : s₁.updateContextIndex s₁.fillUpContext c'.newIndex =
      (s₁.setContext s₁.fillUpContext { ctx' with index := { ctx'.index with
        track := c'.newIndex } }, .ok ()) := by
    simp only [updateContextIndex, loaded']
  refine ⟨added, s₁, c', _, fills, moved, ?_, ?_⟩
  · cases s₁.fillUpContext <;> rfl
  · intro fuel enough
    have returns := fills.returns fuel (Nat.lt_of_lt_of_le (left_lt_roundLimit s _) enough)
    simp only [fillUpRounds, loaded, returns, Option.map_some, Reply.andThen, moved]

/-- The rounds compute `fillUpNextTracks`, as long as the number of the round over
the context does not wrap. -/
theorem fillUpRounds_eq (few : s.player.nextTracks.length ≤ SPOTIFY_MAX_NEXT_TRACKS_SIZE)
    (small : ∀ ctx, s.getContext s.fillUpContext = .ok ctx →
      ctx.index.page + SPOTIFY_MAX_NEXT_TRACKS_SIZE < usizeSize) {fuel : Nat}
    (enough : roundLimit s ≤ fuel) : fillUpRounds fuel s = some s.fillUpNextTracks := by
  cases loaded : s.getContext s.fillUpContext with
  | error e => simp only [fillUpRounds, fillUpNextTracks, loaded]
  | ok ctx =>
    obtain ⟨added, s₁, c', s', fills, moved, -, returns⟩ := fillUpRounds_fills loaded few
    have same : fillLoop (room s) s ⟨ctx.index.track, ctx.index.page⟩ = (s₁, .ok c') := by
      apply fills.same
      have places : room s ≤ SPOTIFY_MAX_NEXT_TRACKS_SIZE := Nat.sub_le _ _
      have page := small ctx loaded
      dsimp only
      omega
    rw [returns fuel enough, fillUpNextTracks, loaded]
    rw [room] at same
    simp only [same, Reply.andThen, moved]

/-- Filling up ends, keeps what is there and stays within eighty tracks. Each track
it adds is a delimiter, or was at the cursor of the fill-up context at that
moment, available and not the one to be skipped. -/
theorem fillUp_terminates (s : ConnectState)
    (few : s.player.nextTracks.length ≤ SPOTIFY_MAX_NEXT_TRACKS_SIZE) :
    ∃ s' result added, (∀ fuel, roundLimit s ≤ fuel → fillUpRounds fuel s = some (s', result)) ∧
      (Loaded s → result = .ok ()) ∧
      s'.player.nextTracks = s.player.nextTracks ++ added ∧
      s'.player.nextTracks.length ≤ SPOTIFY_MAX_NEXT_TRACKS_SIZE ∧
      ∀ front t back, added = front ++ t :: back → ∃ m c, Visits s m c ∧
        m.player.nextTracks = s.player.nextTracks ++ front ∧
        (t = newDelimiter c.iteration ∨ t ∈ stock s ∧ Taken m c t) := by
  cases loaded : s.getContext s.fillUpContext with
  | error e =>
    refine ⟨s, .error e, [], ?_, ?_, by simp, few, by simp⟩
    · intro fuel _
      simp only [fillUpRounds, loaded]
    · rintro ⟨ctx, ok⟩
      rw [loaded] at ok
      cases ok
  | ok ctx =>
    obtain ⟨added, s₁, c', s', fills, -, player, returns⟩ := fillUpRounds_fills loaded few
    have nextTracks : s'.player.nextTracks = s.player.nextTracks ++ added := by
      obtain ⟨fillUp, i, j, state⟩ := fills.state
      rw [player, state]
      rfl
    refine ⟨s', .ok (), added, returns, fun _ => rfl, nextTracks, ?_, ?_⟩
    · rw [nextTracks, List.length_append]
      exact fills.bounded
    · intro front t back split
      obtain ⟨m, c, visited, before, delimiter | taken⟩ := fills.taken front t back split
      · exact ⟨m, c, visited, before, .inl delimiter⟩
      · exact ⟨m, c, visited, before, .inr ⟨taken_mem_stock ⟨ctx, loaded⟩ visited taken, taken⟩⟩

/-- A context that repeats and in which nothing can be played. -/
def nothingToPlay : ConnectState :=
  (ContextRuns.loaded [⟨"a", "", [], .unavailable⟩,
    ⟨"b", "", [], .unavailable⟩] none).setRepeatContext
    true

theorem nothingToPlay_rounds :
    fillUpRounds 243 nothingToPlay = some nothingToPlay.fillUpNextTracks :=
  fillUpRounds_eq (by decide) (by rintro _ ⟨⟩; decide) (by decide)

theorem nothingToPlay_terminates :
    ∃ s' added, fillUpRounds 243 nothingToPlay = some (s', .ok ()) ∧
      s'.player.nextTracks = added ∧ added.length ≤ SPOTIFY_MAX_NEXT_TRACKS_SIZE ∧
      ∀ t ∈ added, (∃ iteration, t = newDelimiter iteration) ∨ t ∈ stock nothingToPlay := by
  obtain ⟨s', result, added, returns, succeeds, nextTracks, few, taken⟩ :=
    fillUp_terminates nothingToPlay (by decide)
  obtain rfl := succeeds ⟨_, rfl⟩
  refine ⟨s', added, returns 243 (by decide), nextTracks, ?_, ?_⟩
  · rw [← nextTracks.trans (List.nil_append added)]
    exact few
  · intro t inside
    obtain ⟨front, back, split⟩ := List.append_of_mem inside
    obtain ⟨m, c, -, -, delimiter | ⟨known, -⟩⟩ := taken front t back split
    · exact .inl ⟨_, delimiter⟩
    · exact .inr known

end FillRounds
