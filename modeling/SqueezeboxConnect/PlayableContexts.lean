import SqueezeboxConnect.ContextPositions

/-!
# Contexts without a track to play

A message is accepted if one of its pages has a track. The tracks are converted
afterwards, and those that stand for no item are dropped, so the context that is
stored may be empty. Playback cannot start in it, and drawing a random track of it
draws from an empty range.
-/

namespace PlayableContexts

open Connect ConnectState ContextPositions ContextRuns

/-- `rng` is what the random number generator gives; `none` is the panic of a draw from an
empty range. -/
def setCurrentTrackRandom (s : ConnectState) (rng : Nat) : Option (Reply Unit) :=
  match s.getContext s.activeContext with
  | .error e => some (s, .error e)
  | .ok ctx =>
    let maxTracks := ctx.tracks.vec.length
    if maxTracks = 0 then none else some (s.setCurrentTrack (rng % maxTracks))

/-- The default context has a track, and playback can start with it or a random one. -/
structure Playable (s : ConnectState) : Prop where
  stored : ∃ ctx, s.context = some ctx ∧ ctx.tracks.vec ≠ []
  first : s.activeContext = .default → (s.setCurrentTrack 0).2 = .ok ()
  random : s.activeContext = .default → ∀ rng, ∃ s', setCurrentTrackRandom s rng = some (s', .ok ())

theorem setCurrentTrack_ok {s : ConnectState} {ctx : StateContext} (loaded : s.context = some ctx)
    (active : s.activeContext = .default) {i : Nat} (inside : i < ctx.tracks.vec.length) :
    (s.setCurrentTrack i).2 = .ok () := by
  simp [setCurrentTrack, active, getContext, loaded, List.getElem?_eq_getElem inside]

theorem playable_iff {s : ConnectState} {ctx : StateContext} (loaded : s.context = some ctx) :
    Playable s ↔ ctx.tracks.vec ≠ [] := by
  constructor
  · intro playable
    obtain ⟨ctx', loaded', filled⟩ := playable.stored
    rw [loaded] at loaded'
    cases loaded'
    exact filled
  · intro filled
    have positive : 0 < ctx.tracks.vec.length := List.length_pos_iff.mpr filled
    refine ⟨⟨ctx, loaded, filled⟩, fun active => setCurrentTrack_ok loaded active positive, ?_⟩
    intro active rng
    have drawn := setCurrentTrack_ok loaded active (Nat.mod_lt rng positive)
    refine ⟨(s.setCurrentTrack (rng % ctx.tracks.vec.length)).1, ?_⟩
    have found : s.getContext s.activeContext = .ok ctx := by simp [active, getContext, loaded]
    simp only [setCurrentTrackRandom, found, if_neg (Nat.pos_iff_ne_zero.mp positive)]
    exact congrArg some (Prod.ext rfl drawn)

theorem numbers_eq_nil_iff {length : Nat} {page : ContextPage} {added : List ProvidedTrack}
    (numbers : Numbers length page added) :
    added = [] ↔ ∀ t ∈ page.tracks, convertible t = false := by
  rw [← places_eq_nil_iff page.tracks 0, ← List.map_eq_nil_iff (f := ProvidedTrack.getContextIndex),
    numbers, List.map_eq_nil_iff]

/-- Pages add nothing exactly if all their tracks are dropped. -/
theorem appends_eq_nil_iff {pages : List ContextPage} {tracks whole : List ProvidedTrack}
    (appends : Appends pages tracks whole) :
    whole = [] ↔ tracks = [] ∧ ∀ page ∈ pages, ∀ t ∈ page.tracks, convertible t = false := by
  induction appends with
  | nil => simp
  | page numbers _ ih =>
    rw [ih, List.append_eq_nil_iff, numbers_eq_nil_iff numbers, List.forall_mem_cons, and_assoc]

/-- An accepted context is playable exactly if one of its tracks can be converted. -/
theorem accepted_playable_iff {s : ConnectState} {context : Context} {uuid : Nat → Nat → String}
    {uris : Option (List String)} (accepted : (s.updateContext context .default uuid).2 =
      .ok uris) :
    Playable (s.updateContext context .default uuid).1 ↔
      ∃ page ∈ context.pages, ∃ t ∈ page.tracks, convertible t = true := by
  obtain ⟨ctx, pages, loaded, appends, same⟩ := updateContext_appends accepted
  rw [playable_iff loaded, ne_eq, appends_eq_nil_iff appends]
  simp [same]

/-- A page with a track that is dropped and one that is kept. -/
theorem halfConverted_playable :
    Playable ((loaded [] none).updateContext (message [trackWithout, trackWithId 1]) .default
      fun _ => noUids).1 := by
  refine (@accepted_playable_iff _ _ _ none rfl).mpr ?_
  exact ⟨⟨none, [trackWithout, trackWithId 1], []⟩, by decide, trackWithId 1, by decide, by
    decide +kernel⟩

/-- A page with one track, which stands for no item: it is accepted, its first track cannot
be set, and a random one is drawn from an empty range. -/
theorem unconverted_notPlayable :
    let s := (loaded [] none).updateContext (message [trackWithout]) .default fun _ => noUids
    s.2 = .ok none ∧ ¬ Playable s.1 ∧
      (s.1.setCurrentTrack 0).2 = .error (.canNotFindTrackInContext (some 0) 0) ∧
      setCurrentTrackRandom s.1 0 = none := by
  refine ⟨rfl, ?_, rfl, rfl⟩
  intro playable
  obtain ⟨ctx, stored, filled⟩ := playable.stored
  cases stored
  exact filled rfl

end PlayableContexts
