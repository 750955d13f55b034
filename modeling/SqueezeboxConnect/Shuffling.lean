import SqueezeboxConnect.ConnectDeck
import SqueezeboxConnect.ContextRuns

/-!
# Shuffling a context

Shuffling a context and taking the shuffle back keeps the order in which its
pages were loaded. A page that comes in while the context is shuffled is put
behind the shuffled tracks, and taking the shuffle back then fails.
-/

namespace Shuffling

open Connect ConnectState ConnectDeck Runs

inductive Op where
  | handleShuffle (enabled : Bool) (newSeed : Nat)
  | fillContextFromPage (page : ContextPage) (uuid : Nat → String)
  | resetContext

/-- A state with the tracks of the pages its default context was loaded from. -/
structure Session where
  state : ConnectState
  loaded : List ProvidedTrack

variable (smallRng : Nat → Rng)

def step (r : Session) : Op → Session
  | .handleShuffle enabled newSeed =>
    ⟨(r.state.handleShuffle smallRng enabled newSeed).1, r.loaded⟩
  | .fillContextFromPage page uuid =>
    ⟨(r.state.fillContextFromPage page uuid).1, r.loaded ++ r.state.furtherTracks page uuid⟩
  | .resetContext => ⟨r.state.resetContext .defaultIndex, r.loaded⟩

def Session.start (s : ConnectState) (ctx : StateContext) : Session :=
  ⟨{ s with context := some ctx }, ctx.tracks.vec⟩

/-- Where it is not shuffled, the context is in the order it was loaded in. -/
def InOrder (r : Session) : Prop :=
  ∀ ctx, r.state.context = some ctx → ctx.tracks.indices = none → ctx.tracks.vec = r.loaded

/-- No page with tracks comes in while the context is shuffled. -/
def Undisturbed (s : ConnectState) : Op → Prop
  | .fillContextFromPage page uuid => ∀ ctx, s.context = some ctx →
      ctx.tracks.indices = none ∨ s.furtherTracks page uuid = []
  | _ => True

/-- The tracks of the default context as unshuffling gives them. -/
def original (s : ConnectState) : Option (List ProvidedTrack) :=
  s.context.map fun ctx => ctx.tracks.unshuffle.vec

variable {s s' : ConnectState}

theorem original_sameContexts (same : SameContexts s s') : original s' = original s := by
  obtain ⟨i, hi⟩ := same.context
  rw [original, hi, Option.map_map]
  rfl

theorem original_resetContext (s : ConnectState) :
    original (s.resetContext .defaultIndex) = original s := by
  have deck := sameDeck_setActiveContext
    { s.unshuffleContext.rewindContexts with fillUpContext := ContextType.default } .default
  have context : (s.resetContext .defaultIndex).context =
      s.unshuffleContext.rewindContexts.context :=
    deck.context_eq
  rw [original, context, rewindContexts, unshuffleContext, original]
  cases s.context with
  | none => rfl
  | some ctx =>
    simp only [Option.map_some, StateContext.rewind]
    rw [ShuffleVec.unshuffle_unshuffle]

theorem original_shuffle (seed : Nat) (initialTrack : String) :
    original (s.shuffle smallRng seed initialTrack).1 = original s := by
  let s₁ := s.clearPrevTrack.clearNextTracks.resetContext .defaultIndex
  have rewound : original s₁ = original s := original_resetContext _
  rw [shuffle_eq]
  cases loaded : s₁.context with
  | none => exact rewound
  | some ctx =>
    obtain ⟨added, fillUp, i, j, filled, -⟩ := fillUp_spec { s₁ with
      context := some (shuffledContext smallRng ctx seed initialTrack) }
    dsimp only
    rw [filled, original_sameContexts (sameContexts_refilled ..), ← rewound, original, original,
      loaded]
    exact congrArg some (ShuffleVec.unshuffle_shuffleWithRng ..)

theorem original_handleShuffle (enabled : Bool) (newSeed : Nat) :
    original (s.handleShuffle smallRng enabled newSeed).1 = original s := by
  cases enabled with
  | true =>
    simp only [handleShuffle, if_true, shuffleNew]
    cases (s.setShuffle true).validateShuffleAllowed with
    | error e => rfl
    | ok _ => exact original_shuffle smallRng newSeed _
  | false =>
    have rewound : original ((s.setShuffle false).resetContext .defaultIndex) = original s :=
      original_resetContext _
    simp only [handleShuffle, Bool.false_eq_true, if_false]
    repeat' split
    all_goals first
      | exact rewound
      | exact (original_sameContexts (resetPlaybackToPosition_spec _ _).contexts).trans rewound

theorem original_fillContextFromPage (page : ContextPage) (uuid : Nat → String)
    (undisturbed : Undisturbed s (.fillContextFromPage page uuid)) :
    original (s.fillContextFromPage page uuid).1 =
      (original s).map fun tracks => tracks ++ s.furtherTracks page uuid := by
  simp only [fillContextFromPage, original]
  cases loaded : s.context with
  | none => simp [loaded]
  | some ctx =>
    simp only [Option.map_some, Option.some.injEq, ShuffleVec.foldl_push]
    rcases undisturbed ctx loaded with plain | empty
    · have longer : ({ ctx.tracks with vec := ctx.tracks.vec ++ s.furtherTracks page uuid } :
          ShuffleVec ProvidedTrack).indices = none := plain
      rw [ShuffleVec.unshuffle_of_none longer, ShuffleVec.unshuffle_of_none plain]
    · rw [empty, List.append_nil, List.append_nil]

theorem step_original {r : Session} (h : original r.state = some r.loaded) (op : Op)
    (undisturbed : Undisturbed r.state op) :
    original (step smallRng r op).state = some (step smallRng r op).loaded := by
  cases op with
  | handleShuffle enabled newSeed => exact (original_handleShuffle smallRng enabled newSeed).trans h
  | fillContextFromPage page uuid =>
    exact (original_fillContextFromPage page uuid undisturbed).trans (by rw [h]; rfl)
  | resetContext => exact (original_resetContext r.state).trans h

/-- Whatever is drawn, a context that is not shuffled is in the order of its pages. -/
theorem inOrder_of_undisturbed (s : ConnectState) (ctx : StateContext)
    (notShuffled : ctx.tracks.indices = none) (ops : List Op)
    (undisturbed : Along (step smallRng) (fun r op => Undisturbed r.state op) (.start s ctx) ops) :
    InOrder (run (step smallRng) (.start s ctx) ops) := by
  have start : original (Session.start s ctx).state = some (Session.start s ctx).loaded := by
    simp [original, Session.start, ShuffleVec.unshuffle_of_none notShuffled]
  have keeps : ∀ r op, original r.state = some r.loaded → Undisturbed r.state op →
      original (step smallRng r op).state = some (step smallRng r op).loaded :=
    fun _ op h good => step_original smallRng h op good
  have h := run_invariant keeps start undisturbed
  intro ctx' loaded plain
  rw [original, loaded, Option.map_some, ShuffleVec.unshuffle_of_none plain] at h
  exact Option.some.inj h

def twoTracks : Session := .start (ContextRuns.loaded [] none)
  ⟨.ofVec (ContextRuns.playlist 2), [], none, ⟨0, 0⟩⟩

def furtherPage : ContextPage := ⟨none, [⟨some "spotify:item:c", none, none, []⟩], []⟩

/-- The page comes in before the context is shuffled. -/
theorem unshuffledPage_inOrder :
    InOrder (run (step fun _ _ => 0) twoTracks [.fillContextFromPage furtherPage fun _ => "",
      .handleShuffle true 1, .handleShuffle false 1]) := by
  refine inOrder_of_undisturbed _ _ _ rfl _ ⟨?_, trivial, trivial, trivial⟩
  rintro ctx ⟨⟩
  exact Or.inl rfl

/-- The page comes in while the context is shuffled. -/
theorem shuffledPage_not_inOrder :
    ¬ InOrder (run (step fun _ _ => 0) twoTracks [.handleShuffle true 1,
      .fillContextFromPage furtherPage fun _ => "", .handleShuffle false 1]) := by
  intro inOrder
  have order := inOrder _ rfl rfl
  exact absurd (congrArg List.head? order) (by decide +kernel)

end Shuffling
