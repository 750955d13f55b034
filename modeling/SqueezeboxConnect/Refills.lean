import SqueezeboxConnect.ConnectDeck

/-!
# What filling up still brings

The tracks behind the cursor of the fill-up context come next. At its end a
repeated context comes again, and behind any other default context comes the
autoplay context. Filling up adds nothing else but delimiters. A track that is
to come, and is not the one a shuffled context leaves out, gets nearer with
every track that is added in front of it.
-/

namespace Refills

open Connect ConnectState ContextWindow ConnectDeck

/-- The tracks that come at the end of the fill-up context. -/
def following (s : ConnectState) (ctx : StateContext) : List ProvidedTrack :=
  if s.repeatContext then ctx.tracks.vec
  else if s.fillUpContext = .default then
    s.autoplayContext.elim [] fun autoplay => autoplay.tracks.vec.drop autoplay.index.track
  else []

def supply (s : ConnectState) (ctx : StateContext) (n : Nat) : List ProvidedTrack :=
  ctx.tracks.vec.drop n ++ following s ctx

/-- The tracks that filling up can still bring. -/
def refills (s : ConnectState) : List ProvidedTrack :=
  match s.getContext s.fillUpContext with
  | .error _ => []
  | .ok ctx => offered (supply s ctx ctx.index.track)

/-- The tracks that it adds before it comes to the end of the context. -/
def upNext (s : ConnectState) : List ProvidedTrack :=
  match s.getContext s.fillUpContext with
  | .error _ => []
  | .ok ctx => ahead s ctx.tracks.vec ⟨ctx.index.track, ctx.index.page⟩

/-- A track with the uri that can be played. -/
def wanted (uri : String) (t : ProvidedTrack) : Bool := t.uri == uri && !t.isUnavailable

/-- No context was shuffled while the track was playing. -/
def Unmarked (uri : String) (s : ConnectState) : Prop :=
  ∀ ctx, s.context = some ctx ∨ s.autoplayContext = some ctx →
    ctx.metadata.get "initial_track" ≠ some uri

/-- It comes behind the place `n` of the context. -/
def here (uri : String) (ctx : StateContext) (n : Nat) : Bool :=
  (ctx.tracks.vec.drop n).any (wanted uri)

/-- How many tracks may be added before it. -/
def distance (uri : String) (s : ConnectState) (ctx : StateContext) (n : Nat) : Nat :=
  (ctx.tracks.vec.drop n).length + if here uri ctx n then 0 else (following s ctx).length + 1

variable {s s' s₁ : ConnectState} {ctx ctx' ctx₁ : StateContext} {c c' c₁ : FillCursor}
  {t : ProvidedTrack} {added : List ProvidedTrack} {room : Nat} {uri : String}
  {tracks : List ProvidedTrack}

theorem mem_offered : t ∈ offered tracks ↔ t ∈ tracks ∧ t.isUnavailable = false := by
  simp [offered]

theorem mem_ahead (inside : t ∈ ahead s tracks c) :
    t ∈ tracks.drop c.newIndex ∧ t.isUnavailable = false := by
  obtain ⟨inside, stays⟩ := List.mem_filter.mp inside
  simp only [passes, Bool.not_eq_true', Bool.or_eq_false_iff] at stays
  exact ⟨inside, stays.1⟩

section Supplies

theorem following_again (repeats : s.repeatContext = true) : following s ctx = ctx.tracks.vec :=
  if_pos repeats

theorem following_autoplay {autoplay : StateContext} (once : s.repeatContext = false)
    (first : s.fillUpContext = .default) (loaded : s.autoplayContext = some autoplay) :
    following s ctx = autoplay.tracks.vec.drop autoplay.index.track := by
  simp [following, once, first, loaded]

/-- What comes next is taken off what is still to come, or is a delimiter in front of what
follows. -/
theorem nextFill_supply (next : NextFill s ctx c (s₁, .ok (some t, c₁)))
    (loaded : s.getContext s.fillUpContext = .ok ctx)
    (loaded₁ : s₁.getContext s₁.fillUpContext = .ok ctx₁) :
    (t ∈ offered (supply s ctx c.newIndex) ∨ ∃ i, t = newDelimiter i) ∧
      supply s₁ ctx₁ c₁.newIndex ⊆ supply s ctx c.newIndex := by
  cases next with
  | @track _ n later _ next =>
    obtain rfl := Except.ok.inj (loaded.symm.trans loaded₁)
    obtain ⟨inside, available⟩ := mem_ahead (c := c) (next ▸ List.mem_cons_self)
    refine ⟨.inl (mem_offered.mpr ⟨List.mem_append_left _ inside, available⟩), ?_⟩
    exact ((List.drop_sublist_drop_left _ (Nat.le_succ_of_le later)).append_right _).subset
  | again nothing repeats =>
    obtain rfl := Except.ok.inj (loaded.symm.trans loaded₁)
    refine ⟨.inr ⟨_, rfl⟩, fun u inside => List.mem_append_right _ ?_⟩
    simpa [supply, following_again repeats] using inside
  | @autoplay autoplay n nothing once first hs ha =>
    obtain rfl : autoplay = ctx₁ := by simpa [getContext, ha] using loaded₁
    have alone : ¬ s.player.options.repeatingContext = true := by
      simpa [repeatContext] using once
    refine ⟨.inr ⟨_, rfl⟩, fun u inside => List.mem_append_right _ ?_⟩
    rw [following_autoplay once first ha]
    simpa [supply, following, repeatContext, alone] using inside

theorem feeds_supply (feeds : Feeds room s ctx c added s' ctx' c')
    (loaded : s.getContext s.fillUpContext = .ok ctx) :
    (∀ t ∈ added, t ∈ offered (supply s ctx c.newIndex) ∨ ∃ i, t = newDelimiter i) ∧
      offered (supply s' ctx' c'.newIndex) ⊆ offered (supply s ctx c.newIndex) := by
  induction feeds with
  | full => exact ⟨by simp, List.Subset.refl _⟩
  | @ends _ s ctx c =>
    refine ⟨by simp, fun u inside => ?_⟩
    obtain ⟨inside, available⟩ := mem_offered.mp inside
    refine mem_offered.mpr ⟨?_, available⟩
    exact ((List.drop_sublist_drop_left _ (Nat.le_max_left ..)).append_right _).subset inside
  | adds next loaded₁ _ ih =>
    obtain ⟨first, smaller⟩ := nextFill_supply next loaded loaded₁
    obtain ⟨rest, fewer⟩ := ih loaded₁
    have smaller' := List.filter_subset (fun t => !t.isUnavailable) smaller
    exact ⟨List.forall_mem_cons.mpr ⟨first, fun t inside => (rest t inside).imp_left (smaller' ·)⟩,
      fun u inside => smaller' (fewer inside)⟩

/-- At the end of the context the first thing that is added is a delimiter. -/
theorem feeds_end (feeds : Feeds room s ctx c added s' ctx' c') (few : room ≤ 1)
    (nothing : ahead s ctx.tracks.vec c = []) : ∀ t ∈ added, ∃ i, t = newDelimiter i := by
  cases feeds with
  | full | ends => simp
  | adds next _ rest =>
    obtain rfl : _ = 0 := Nat.le_zero.mp (Nat.le_of_succ_le_succ few)
    cases rest with
    | full =>
      cases next with
      | track _ _ next => simp [nothing] at next
      | again | autoplay => exact List.forall_mem_singleton.mpr ⟨_, rfl⟩

theorem refills_loaded (loaded : s.getContext s.fillUpContext = .ok ctx) :
    refills s = offered (supply s ctx ctx.index.track) := by
  rw [refills, loaded]

/-- The cursor is kept in the context. -/
theorem moved_loaded (s : ConnectState) (ctx : StateContext) :
    (s.setContext s.fillUpContext ctx).getContext (s.setContext s.fillUpContext ctx).fillUpContext =
      .ok ctx := by
  cases fillUp : s.fillUpContext <;> simp [setContext, getContext, fillUp]

theorem following_moved (s : ConnectState) (ctx : StateContext) (n : Nat) :
    following (s.setContext s.fillUpContext (ctx.moveTo n)) (ctx.moveTo n) = following s ctx := by
  cases fillUp : s.fillUpContext <;>
    simp [setContext, following, fillUp, repeatContext, StateContext.moveTo]

theorem refills_moved (s : ConnectState) (ctx : StateContext) (n : Nat) :
    refills (s.setContext s.fillUpContext (ctx.moveTo n)) = offered (supply s ctx n) := by
  rw [refills_loaded (moved_loaded s (ctx.moveTo n)), supply, following_moved]
  rfl

/-- Filling up adds delimiters and tracks that were to come, and nothing new is to come then. -/
theorem fillUp_refills (s : ConnectState) :
    ∃ added fillUp i j, s.fillUpNextTracks.1 = refilled s added fillUp i j ∧
      (∀ t ∈ added, t ∈ refills s ∨ ∃ i, t = newDelimiter i) ∧
      refills s.fillUpNextTracks.1 ⊆ refills s := by
  cases loaded : s.getContext s.fillUpContext with
  | error e =>
    obtain ⟨i, j, same⟩ := refilled_self s
    rw [fillUpNextTracks, loaded]
    exact ⟨[], _, i, j, same, by simp, List.Subset.refl _⟩
  | ok ctx =>
    obtain ⟨added, s', ctx', c', kept, ⟨fillUp, i, j, filled⟩, loaded', feeds⟩ :=
      fillUp_feeds loaded
    obtain ⟨within, fewer⟩ := feeds_supply feeds loaded
    refine ⟨added, fillUp, i, j, congrArg Prod.fst filled, ?_, ?_⟩
    · rwa [refills_loaded loaded]
    · rw [kept, refills_moved, refills_loaded loaded]
      exact fewer

end Supplies

variable {d : Nat}

section Nearer

theorem passes_unmarked (unmarked : Unmarked uri s) (want : wanted uri t = true) (iteration : Nat) :
    passes s iteration t = false := by
  obtain ⟨rfl, available⟩ : t.uri = uri ∧ t.isUnavailable = false := by simpa [wanted] using want
  simp only [passes, available, isSkipTrack, Bool.false_or]
  cases loaded : s.getContext s.activeContext with
  | error e => rfl
  | ok ctx =>
    have other := unmarked ctx (context_of_loaded loaded)
    simp [other]

theorem here_of_ahead (unmarked : Unmarked uri s) :
    here uri ctx c.newIndex = (ahead s ctx.tracks.vec c).any (wanted uri) := by
  rw [here, ahead, Bool.eq_iff_iff, List.any_eq_true, List.any_eq_true]
  constructor
  · rintro ⟨t, inside, want⟩
    exact ⟨t, List.mem_filter.mpr ⟨inside, by simp [passes_unmarked unmarked want]⟩, want⟩
  · rintro ⟨t, inside, want⟩
    exact ⟨t, (List.mem_filter.mp inside).1, want⟩

theorem any_supply (s : ConnectState) (ctx : StateContext) (n : Nat) :
    (supply s ctx n).any (wanted uri) = (here uri ctx n || (following s ctx).any (wanted uri)) := by
  rw [supply, List.any_append, here]

theorem unmarked_refilled (unmarked : Unmarked uri s) (added : List ProvidedTrack)
    (fillUp : ContextType) (i j : Nat) : Unmarked uri (refilled s added fillUp i j) := by
  rintro ctx (hs | ha)
  · obtain ⟨old, loaded, rfl⟩ := Option.map_eq_some_iff.mp hs
    exact unmarked old (.inl loaded)
  · obtain ⟨old, loaded, rfl⟩ := Option.map_eq_some_iff.mp ha
    exact unmarked old (.inr loaded)

/-- A delimiter stands at the end of the context, in front of what follows. -/
theorem nextFill_turns (next : NextFill s ctx c (s₁, .ok (some t, c₁)))
    (loaded : s.getContext s.fillUpContext = .ok ctx)
    (loaded₁ : s₁.getContext s₁.fillUpContext = .ok ctx₁) :
    (s₁ = s ∧ ctx₁ = ctx ∧ c.newIndex < c₁.newIndex ∧ c₁.newIndex ≤ ctx.tracks.vec.length ∧
      ahead s ctx.tracks.vec c = t :: ahead s ctx.tracks.vec c₁) ∨
    ahead s ctx.tracks.vec c = [] ∧ ctx₁.tracks.vec.drop c₁.newIndex = following s ctx := by
  cases next with
  | track later found next =>
    obtain rfl := Except.ok.inj (loaded.symm.trans loaded₁)
    exact .inl ⟨rfl, rfl, Nat.lt_succ_of_le later, (List.getElem?_eq_some_iff.mp found).1, next⟩
  | again nothing repeats =>
    obtain rfl := Except.ok.inj (loaded.symm.trans loaded₁)
    exact .inr ⟨nothing, by rw [following_again repeats, List.drop_zero]⟩
  | @autoplay autoplay n nothing once first hs ha =>
    obtain rfl : autoplay = ctx₁ := by simpa [getContext, ha] using loaded₁
    exact .inr ⟨nothing, (following_autoplay once first ha).symm⟩

/-- The loop has added other tracks, and the wanted one is nearer. At most one of them is a
delimiter, and behind that one the track comes before the end of the context. -/
structure Nearer (uri : String) (s : ConnectState) (ctx : StateContext) (n : Nat)
    (added : List ProvidedTrack) (s' : ConnectState) (ctx' : StateContext) (n' : Nat) : Prop where
  comes : (supply s' ctx' n').any (wanted uri) = true
  closer : distance uri s' ctx' n' + added.length ≤ distance uri s ctx n
  stays : here uri ctx n = true → here uri ctx' n' = true ∧ ∀ t ∈ added, t ∈ offered (stock s)
  once : (∀ t ∈ added, t ∈ offered (stock s)) ∨ here uri ctx' n' = true ∧
    ∃ front delimiter back, added = front ++ delimiter :: back ∧
      ∀ t ∈ front ++ back, t ∈ offered (stock s)

theorem feeds_nearer (feeds : Feeds room s ctx c added s' ctx' c')
    (loaded : s.getContext s.fillUpContext = .ok ctx) (unmarked : Unmarked uri s)
    (comes : (supply s ctx c.newIndex).any (wanted uri) = true)
    (missed : added.any (wanted uri) = false) :
    added.length = room ∧ Nearer uri s ctx c.newIndex added s' ctx' c'.newIndex := by
  induction feeds with
  | full => exact ⟨rfl, comes, Nat.le_refl _, fun h => ⟨h, by simp⟩, .inl (by simp)⟩
  | @ends _ s ctx c nothing once last =>
    have last : following s ctx = [] := by
      by_cases first : s.fillUpContext = .default
      · simp [following, once, last first]
      · simp [following, once, first]
    rw [any_supply, here_of_ahead unmarked, nothing, last] at comes
    cases comes
  | @adds room s s₁ _ ctx ctx₁ _ c c₁ _ t added next loaded₁ _ ih =>
    obtain ⟨⟨fillUp, i, j, state⟩, -, drawn⟩ := nextFill_refilled next loaded
    have stocked : stock (addNext s₁ [t]) = stock s := by
      rw [state, refilled_addNext, stock_refilled]
    have unmarked₁ : Unmarked uri (addNext s₁ [t]) := by
      rw [state, refilled_addNext]
      exact unmarked_refilled unmarked _ _ _ _
    rw [List.any_cons, Bool.or_eq_false_iff] at missed
    rcases nextFill_turns next loaded loaded₁ with ⟨rfl, rfl, later, inside, found⟩ | ⟨nothing,
      turned⟩
    · have same : here uri ctx₁ c.newIndex = here uri ctx₁ c₁.newIndex := by
        rw [here_of_ahead unmarked, found, List.any_cons, missed.1, Bool.false_or,
          here_of_ahead unmarked]
      rw [any_supply, same, ← any_supply] at comes
      obtain ⟨length, near⟩ := ih loaded₁ unmarked₁ comes missed.2
      have first : t ∈ offered (stock s₁) := by
        have stays : t ∈ ahead s₁ ctx₁.tracks.vec c := by simp [found]
        obtain ⟨member, available⟩ := mem_ahead stays
        exact mem_offered.mpr ⟨mem_stock loaded (List.mem_of_mem_drop member), available⟩
      have stays := near.stays
      have once := near.once
      rw [stocked] at stays once
      refine ⟨congrArg (· + 1) length, near.comes, ?_, ?_, ?_⟩
      · have step : distance uri (addNext s₁ [t]) ctx₁ c₁.newIndex + 1 ≤
            distance uri s₁ ctx₁ c.newIndex := by
          rw [distance, distance, same, List.length_drop, List.length_drop]
          change _ + (if _ then 0 else (following s₁ ctx₁).length + 1) + 1 ≤ _
          omega
        have closer := near.closer
        rw [List.length_cons]
        omega
      · intro start
        obtain ⟨still, rest⟩ := stays (same ▸ start)
        exact ⟨still, List.forall_mem_cons.mpr ⟨first, rest⟩⟩
      · rcases once with rest | ⟨still, front, delimiter, back, rfl, rest⟩
        · exact .inl (List.forall_mem_cons.mpr ⟨first, rest⟩)
        · exact .inr ⟨still, t :: front, delimiter, back, rfl,
            List.forall_mem_cons.mpr ⟨first, rest⟩⟩
    · -- behind the delimiter the track comes before the end of the context
      have gone : here uri ctx c.newIndex = false := by
        rw [here_of_ahead unmarked, nothing, List.any_nil]
      have arrived : here uri ctx₁ c₁.newIndex = true := by
        rwa [any_supply, gone, Bool.false_or, ← turned] at comes
      have comes₁ : (supply (addNext s₁ [t]) ctx₁ c₁.newIndex).any (wanted uri) = true := by
        rw [any_supply, arrived, Bool.true_or]
      obtain ⟨length, near⟩ := ih loaded₁ unmarked₁ comes₁ missed.2
      obtain ⟨still, rest⟩ := near.stays arrived
      rw [stocked] at rest
      refine ⟨congrArg (· + 1) length, near.comes, ?_, fun start => ?_,
        .inr ⟨still, [], t, added, rfl, rest⟩⟩
      · have closer := near.closer
        simp only [distance, arrived, gone, turned, if_true, Bool.false_eq_true, if_false,
          List.length_cons] at closer ⊢
        omega
      · rw [gone] at start
        cases start

/-- The track is to come behind `d` other ones at most. -/
def Coming (uri : String) (s : ConnectState) (d : Nat) : Prop :=
  ∃ ctx, s.getContext s.fillUpContext = .ok ctx ∧
    (supply s ctx ctx.index.track).any (wanted uri) = true ∧ distance uri s ctx ctx.index.track = d

theorem coming_of_refills (comes : ∃ t ∈ refills s, t.uri = uri) : ∃ d, Coming uri s d := by
  obtain ⟨t, inside, same⟩ := comes
  cases loaded : s.getContext s.fillUpContext with
  | error e => simp [refills, loaded] at inside
  | ok ctx =>
    obtain ⟨inside, available⟩ := mem_offered.mp (refills_loaded loaded ▸ inside)
    exact ⟨_, ctx, loaded, List.any_eq_true.mpr ⟨t, inside, by simp [wanted, same, available]⟩, rfl⟩

/-- The track comes before the end of the fill-up context. -/
def Soon (uri : String) (s : ConnectState) : Prop :=
  ∃ ctx, s.getContext s.fillUpContext = .ok ctx ∧ here uri ctx ctx.index.track = true

theorem upNext_ne_nil (unmarked : Unmarked uri s) (soon : Soon uri s) : upNext s ≠ [] := by
  obtain ⟨ctx, loaded, soon⟩ := soon
  intro nothing
  have gone : here uri ctx ctx.index.track = _ :=
    here_of_ahead (c := ⟨ctx.index.track, ctx.index.page⟩) unmarked
  simp only [upNext, loaded] at nothing
  rw [nothing] at gone
  rw [show here uri ctx ctx.index.track = false from gone] at soon
  cases soon

theorem mem_upNext (inside : t ∈ upNext s) : t ∈ offered (stock s) := by
  rw [upNext] at inside
  split at inside
  · cases inside
  · rename_i loaded
    obtain ⟨member, available⟩ := mem_ahead inside
    exact mem_offered.mpr ⟨mem_stock loaded (List.mem_of_mem_drop member), available⟩

/-- Filling up has brought other tracks, as many as there was room for. -/
structure Approaches (uri : String) (s : ConnectState) (d : Nat) (added : List ProvidedTrack)
    (s' : ConnectState) : Prop where
  length : added.length = SPOTIFY_MAX_NEXT_TRACKS_SIZE - s.player.nextTracks.length
  coming : ∃ d', Coming uri s' d' ∧ d' + added.length ≤ d
  once : (∀ t ∈ added, t ∈ offered (stock s)) ∨ Soon uri s' ∧
    ∃ front delimiter back, added = front ++ delimiter :: back ∧
      ∀ t ∈ front ++ back, t ∈ offered (stock s)
  begins : ∃ more, added = (upNext s).take added.length ++ more

theorem fillUp_approaches (unmarked : Unmarked uri s) (coming : Coming uri s d) :
    ∃ added fillUp i j, s.fillUpNextTracks = (refilled s added fillUp i j, .ok ()) ∧
      (∀ t ∈ added, Drawn s t) ∧ ((∃ t ∈ added, wanted uri t = true) ∨
        Approaches uri s d added (refilled s added fillUp i j)) := by
  obtain ⟨ctx, loaded, comes, rfl⟩ := coming
  obtain ⟨added, s', ctx', c', kept, ⟨fillUp, i, j, filled⟩, loaded', feeds⟩ := fillUp_feeds loaded
  refine ⟨added, fillUp, i, j, filled, (feeds_refilled feeds loaded).2.1, ?_⟩
  cases missed : added.any (wanted uri) with
  | true => exact .inl (List.any_eq_true.mp missed)
  | false =>
    obtain ⟨length, near⟩ := feeds_nearer feeds loaded unmarked comes missed
    have state : refilled s added fillUp i j =
        s'.setContext s'.fillUpContext (ctx'.moveTo c'.newIndex) :=
      congrArg Prod.fst (filled.symm.trans kept)
    have moved := moved_loaded s' (ctx'.moveTo c'.newIndex)
    have follows := following_moved s' ctx' c'.newIndex
    rw [state]
    refine .inr ⟨length, ⟨_, ⟨_, moved, ?_, rfl⟩, ?_⟩, ?_, ?_⟩
    · rw [supply, follows]
      exact near.comes
    · rw [distance, follows]
      exact near.closer
    · exact near.once.imp_right fun ⟨still, split⟩ => ⟨⟨_, moved, still⟩, split⟩
    · obtain ⟨more, begins⟩ := feeds_ahead feeds loaded
      exact ⟨more, by rwa [upNext, loaded, length]⟩

end Nearer

/-- The same contexts, of which the same one is filled up from. -/
structure SameSource (s s' : ConnectState) : Prop where
  context_eq : s'.context = s.context
  autoplay_eq : s'.autoplayContext = s.autoplayContext
  fillUp_eq : s'.fillUpContext = s.fillUpContext
  repeat_eq : s'.repeatContext = s.repeatContext

section Source

theorem SameSource.trans (first : SameSource s s₁) (second : SameSource s₁ s') : SameSource s s' :=
  ⟨second.context_eq.trans first.context_eq, second.autoplay_eq.trans first.autoplay_eq,
    second.fillUp_eq.trans first.fillUp_eq, second.repeat_eq.trans first.repeat_eq⟩

theorem sameSource_of_sameWindow (same : SameWindow s s') (track : Option ProvidedTrack)
    (prevTracks nextTracks : List ProvidedTrack) :
    SameSource s (placed s' track prevTracks nextTracks) :=
  ⟨same.context_eq, same.autoplay_eq, same.fillUp_eq, same.repeat_eq⟩

theorem sameSource_setActiveContext (s : ConnectState) (ty : ContextType) :
    SameSource s (s.setActiveContext ty) := by
  simp only [setActiveContext]
  split <;> exact ⟨rfl, rfl, rfl, rfl⟩

theorem sameSource_startTrack (s : ConnectState) (t : ProvidedTrack) :
    SameSource s (s.startTrack t).1 := by
  have same : SameSource s (s.newIndex t).1 := by
    rw [newIndex]
    split
    · exact ⟨rfl, rfl, rfl, rfl⟩
    · split
      · exact sameSource_setActiveContext s .autoplay
      · exact ⟨rfl, rfl, rfl, rfl⟩
  simp only [startTrack]
  split <;> exact ⟨same.context_eq, same.autoplay_eq, same.fillUp_eq, same.repeat_eq⟩

section

variable (same : SameSource s s')
include same

theorem following_sameSource (ctx : StateContext) : following s' ctx = following s ctx := by
  simp only [following, same.repeat_eq, same.fillUp_eq, same.autoplay_eq]

theorem loaded_sameSource : s'.getContext s'.fillUpContext = s.getContext s.fillUpContext := by
  rw [getContext_congr same.context_eq same.autoplay_eq, same.fillUp_eq]

theorem stock_sameSource : stock s' = stock s := by
  rw [stock, same.context_eq, same.autoplay_eq, stock]

theorem upNext_sameSource (active : s'.activeContext = s.activeContext) : upNext s' = upNext s := by
  have skip : ∀ t iteration, s'.isSkipTrack t iteration = s.isSkipTrack t iteration := by
    intro t iteration
    simp only [isSkipTrack, getContext_congr same.context_eq same.autoplay_eq, active]
  simp only [upNext, loaded_sameSource same, ahead, passes, skip]

theorem refills_sameSource : refills s' = refills s := by
  simp only [refills, loaded_sameSource same, supply, following_sameSource same]

theorem coming_sameSource (coming : Coming uri s d) : Coming uri s' d := by
  simpa only [Coming, loaded_sameSource same, supply, distance, following_sameSource same]
    using coming

theorem soon_sameSource (soon : Soon uri s) : Soon uri s' := by
  rwa [Soon, loaded_sameSource same]

theorem unmarked_sameSource (unmarked : Unmarked uri s) : Unmarked uri s' := by
  rwa [Unmarked, same.context_eq, same.autoplay_eq]

end

end Source

section Moves

/-- Filling up and going on with `rest` brings nothing but what was to come. -/
theorem fill_refills {A : Type} (rest : ConnectState → Reply A)
    (keeps : ∀ g, SameSource g (rest g).1 ∧ (rest g).1.player.nextTracks = g.player.nextTracks)
    (f : ConnectState) :
    let s' := (f.fillUpNextTracks.andThen fun g _ => rest g).1
    (∀ t ∈ s'.player.nextTracks, t ∈ f.player.nextTracks ∨ t ∈ refills f ∨ ∃ i,
      t = newDelimiter i) ∧
      refills s' ⊆ refills f := by
  intro s'
  obtain ⟨added, fillUp, i, j, filled, within, fewer⟩ := fillUp_refills f
  have stops : (∀ t ∈ f.fillUpNextTracks.1.player.nextTracks, t ∈ f.player.nextTracks ∨
      t ∈ refills f ∨ ∃ i, t = newDelimiter i) ∧ refills f.fillUpNextTracks.1 ⊆ refills f := by
    refine ⟨fun t inside => ?_, fewer⟩
    rw [filled] at inside
    exact (List.mem_append.mp inside).imp_right (within t)
  apply @andThen_state _ _ (fun s' => (∀ t ∈ s'.player.nextTracks,
    t ∈ f.player.nextTracks ∨ t ∈ refills f ∨ ∃ i, t = newDelimiter i) ∧ refills s' ⊆ refills f)
  · exact stops
  · intro _
    obtain ⟨source, next⟩ := keeps f.fillUpNextTracks.1
    rwa [next, refills_sameSource source]

theorem nextTrack_refills (s : ConnectState) :
    (∀ t ∈ s.nextTrack.1.player.nextTracks,
      t ∈ s.player.nextTracks ∨ t ∈ refills s ∨ ∃ i, t = newDelimiter i) ∧
      refills s.nextTrack.1 ⊆ refills s := by
  obtain ⟨s₁, newTrack, passed, rest, prevTracks, same, takes, result⟩ := nextTrack_takes s
  have source := sameSource_of_sameWindow same none prevTracks rest
  rw [result, ← refills_sameSource source, takes.split]
  cases newTrack with
  | none => exact ⟨fun t inside => .inl (List.mem_append_right _ inside), List.Subset.refl _⟩
  | some x =>
    obtain ⟨inside, fewer⟩ := fill_refills (startTrack · x)
      (fun g => ⟨sameSource_startTrack g x, (startTrack_deck g x).next_eq⟩)
      (placed s₁ none prevTracks rest)
    exact ⟨fun t member => (inside t member).imp_left (List.mem_append_right _ ·), fewer⟩

theorem prevTrack_refills (s : ConnectState) :
    (∀ t ∈ s.prevTrack.1.player.nextTracks,
      t ∈ reinserted s ∨ t ∈ refills s ∨ ∃ i, t = newDelimiter i) ∧
      refills s.prevTrack.1 ⊆ refills s := by
  obtain ⟨prevTracks, -, result⟩ := prevTrack_eq s
  rw [result]
  cases prevTracks.getLast? with
  | none =>
    refine ⟨fun t inside => .inl (List.mem_of_mem_take inside), ?_⟩
    exact fun t inside => inside
  | some x =>
    let f := placed s none prevTracks.dropLast ((reinserted s).take SPOTIFY_MAX_NEXT_TRACKS_SIZE)
    have keeps : ∀ g : ConnectState, SameSource g ((backTo · x) g).1 ∧
        ((backTo · x) g).1.player.nextTracks = g.player.nextTracks := by
      intro g
      have same := backTo_spec g x
      exact ⟨⟨same.context_eq, same.autoplay_eq, same.fillUp_eq, same.repeat_eq⟩, same.next_eq⟩
    obtain ⟨f₁, back, source, next⟩ : ∃ f₁, playReturned f x =
        f₁.fillUpNextTracks.andThen (fun s _ => s.backTo x) ∧ SameSource f f₁ ∧
          f₁.player.nextTracks = f.player.nextTracks := by
      refine ⟨_, rfl, ?_⟩
      split
      · exact ⟨sameSource_setActiveContext f .default,
          (sameDeck_setActiveContext f .default).next_eq⟩
      · exact ⟨⟨rfl, rfl, rfl, rfl⟩, rfl⟩
    obtain ⟨inside, fewer⟩ := fill_refills _ keeps f₁
    have same : refills f₁ = refills s :=
      (refills_sameSource source).trans (refills_sameSource ⟨rfl, rfl, rfl, rfl⟩)
    rw [same, next] at inside
    rw [same] at fewer
    dsimp only
    rw [show playReturned (placed _ _ _ _) x = _ from back]
    exact ⟨fun t member => (inside t member).imp_left (List.mem_of_mem_take ·), fewer⟩

/-- Filling up leaves no more tracks in front of the one that is to come. -/
theorem fillUp_nearer (unmarked : Unmarked uri s) (coming : Coming uri s d) :
    ∃ g, s.fillUpNextTracks = (g, .ok ()) ∧ Unmarked uri g ∧
      ((∃ t ∈ g.player.nextTracks, wanted uri t = true) ∨ ∃ d', Coming uri g d' ∧
        d' + g.player.nextTracks.length ≤ d + s.player.nextTracks.length ∧
        SPOTIFY_MAX_NEXT_TRACKS_SIZE ≤ g.player.nextTracks.length) := by
  obtain ⟨added, fillUp, i, j, filled, -, brought⟩ := fillUp_approaches unmarked coming
  refine ⟨_, filled, unmarked_refilled unmarked _ _ _ _, ?_⟩
  have length : (refilled s added fillUp i j).player.nextTracks.length =
      s.player.nextTracks.length + added.length := List.length_append
  rcases brought with ⟨t, inside, want⟩ | near
  · exact .inl ⟨t, List.mem_append_right _ inside, want⟩
  · obtain ⟨d', coming', closer⟩ := near.coming
    have room := near.length
    exact .inr ⟨d', coming', by omega, by omega⟩

/-- So does taking a track, with one less of the next tracks. -/
theorem nextTrack_nearer (unmarked : Unmarked uri s) (coming : Coming uri s d)
    (more : 0 < s.player.nextTracks.length) :
    Unmarked uri s.nextTrack.1 ∧
      ((∃ t ∈ s.nextTrack.1.player.nextTracks, wanted uri t = true) ∨
        ∃ d', Coming uri s.nextTrack.1 d' ∧
          d' + s.nextTrack.1.player.nextTracks.length < d + s.player.nextTracks.length) := by
  obtain ⟨s₁, newTrack, passed, rest, prevTracks, same, takes, result⟩ := nextTrack_takes s
  have source := sameSource_of_sameWindow same none prevTracks rest
  have unmarked₁ := unmarked_sameSource source unmarked
  have coming₁ := coming_sameSource source coming
  rw [result]
  cases newTrack with
  | none =>
    refine ⟨unmarked₁, .inr ⟨d, coming₁, ?_⟩⟩
    rw [takes.ends rfl]
    exact Nat.add_lt_add_left more d
  | some x =>
    have fewer := congrArg List.length takes.split
    simp only [List.length_append, Option.toList_some, List.length_singleton] at fewer
    obtain ⟨g, filled, unmarked', brought⟩ := fillUp_nearer unmarked₁ coming₁
    have source' := sameSource_startTrack g x
    rw [playTaken, filled]
    simp only [Reply.andThen]
    rw [(startTrack_deck g x).next_eq]
    refine ⟨unmarked_sameSource source' unmarked', brought.imp_right ?_⟩
    rintro ⟨d', coming', closer, -⟩
    refine ⟨d', coming_sameSource source' coming', ?_⟩
    change _ ≤ d + rest.length at closer
    change d' + g.player.nextTracks.length < _
    omega

end Moves

end Refills
