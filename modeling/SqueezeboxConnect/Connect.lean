import Mathlib.Algebra.Ring.Nat
import Mathlib.Data.List.Basic
import SqueezeboxConnect.ShuffleVec
import SqueezeboxConnect.SpotifyUri
import SqueezeboxConnect.Words

/-!
# The Connect state

The tracks around the current one: at most ten before it, at most eighty after
it, and the context from which the latter are filled up. An operation returns
the state it leaves together with its result, since a failing one may already
have changed the state.

The device is a 32-bit one and is built without overflow checks, so `usize`
arithmetic wraps at `2 ^ 32` and the casts to `u32` change nothing. The hash
that names the revision of the queue is left out.
-/

namespace Connect

open Words

def wrappingAdd (a b : Nat) : Nat := (a + b) % usizeSize

def wrappingSub (a b : Nat) : Nat := (a + usizeSize - b) % usizeSize

def SPOTIFY_MAX_PREV_TRACKS_SIZE : Nat := 10

def SPOTIFY_MAX_NEXT_TRACKS_SIZE : Nat := 80

/-- The providers the code tells apart; a track carries the name as text. -/
inductive Provider where
  | context
  | queue
  | autoplay
  | unavailable
  | other (name : String)
  deriving DecidableEq, Repr

/-- A map from entries to values, with one value for each entry. -/
abbrev Metadata := List (String × String)

namespace Metadata

def get (m : Metadata) (entry : String) : Option String := m.lookup entry

def remove (m : Metadata) (entry : String) : Metadata := m.filter fun e => e.1 != entry

def insert (m : Metadata) (entry value : String) : Metadata := (entry, value) :: m.remove entry

theorem get_remove (m : Metadata) (entry other : String) :
    (m.remove entry).get other = if other = entry then none else m.get other := by
  induction m with
  | nil => simp [get, remove]
  | cons e rest ih =>
    simp only [get, remove] at ih ⊢
    by_cases same : e.1 = entry
    · rw [List.filter_cons_of_neg (by simp [same]), ih, List.lookup_cons, same]
      by_cases there : other = entry
      · rw [if_pos there, if_pos there]
      · rw [if_neg there, if_neg there, beq_false_of_ne there]
    · rw [List.filter_cons_of_pos (by simp [same]), List.lookup_cons, List.lookup_cons, ih]
      by_cases there : other = e.1
      · rw [there, beq_self_eq_true, if_neg same, if_neg same]
      · rw [beq_false_of_ne there]

theorem get_insert (m : Metadata) (entry value other : String) :
    (m.insert entry value).get other = if other = entry then some value else m.get other := by
  rw [insert, get, List.lookup_cons, ← get, get_remove]
  by_cases there : other = entry
  · rw [if_pos there, if_pos there, there, beq_self_eq_true]
  · rw [if_neg there, if_neg there, beq_false_of_ne there]

def getBool (m : Metadata) (entry : String) : Bool := m.get entry == some "true"

def parseUsize (text : String) : Option Nat := parseUnsigned usizeSize text.toList

def getUsize (m : Metadata) (entry : String) : Option Nat := (m.get entry).bind parseUsize

end Metadata

structure ProvidedTrack where
  uri : String
  uid : String
  metadata : Metadata
  provider : Provider
  deriving DecidableEq, Repr

namespace ProvidedTrack

/-- The message that an absent track is read as. -/
def new : ProvidedTrack := ⟨"", "", [], .other ""⟩

variable (t : ProvidedTrack)

def isContext : Bool := t.provider == .context

def isQueue : Bool := t.provider == .queue

def isAutoplay : Bool := t.provider == .autoplay

def isUnavailable : Bool := t.provider == .unavailable

def isFromQueue : Bool := t.metadata.getBool "is_queued"

def getContextIndex : Option Nat := t.metadata.getUsize "context_index"

/-- `uid.starts_with(IDENTIFIER_DELIMITER)`. -/
def isDelimiter : Bool := "delimiter".toList.isPrefixOf t.uid.toList

end ProvidedTrack

structure ContextIndex where
  page : Nat
  track : Nat
  deriving DecidableEq, Repr

structure Restrictions where
  disallowPausingReasons : List String
  disallowResumingReasons : List String
  disallowPeekingPrevReasons : List String
  disallowSkippingPrevReasons : List String
  disallowTogglingShuffleReasons : List String
  disallowTogglingRepeatContextReasons : List String
  disallowTogglingRepeatTrackReasons : List String
  deriving DecidableEq, Repr

def Restrictions.new : Restrictions := ⟨[], [], [], [], [], [], []⟩

/-- `index` keeps track of which of the tracks have been put into the next tracks. -/
structure StateContext where
  tracks : ShuffleVec ProvidedTrack
  metadata : Metadata
  restrictions : Option Restrictions
  index : ContextIndex
  deriving DecidableEq, Repr

inductive ContextType where
  | default
  | autoplay
  deriving DecidableEq, Repr

structure ContextPlayerOptions where
  shufflingContext : Bool
  repeatingContext : Bool
  repeatingTrack : Bool
  deriving DecidableEq, Repr

structure PlayerState where
  track : Option ProvidedTrack
  /-- The last of them is the previous track. -/
  prevTracks : List ProvidedTrack
  /-- The first of them is the next track. -/
  nextTracks : List ProvidedTrack
  index : Option ContextIndex
  options : ContextPlayerOptions
  restrictions : Option Restrictions
  contextRestrictions : Option Restrictions
  contextMetadata : Metadata
  contextUri : String
  contextUrl : String
  isPlaying : Bool
  isPaused : Bool
  isBuffering : Bool
  deriving DecidableEq, Repr

/-- What a transfer says about the shuffle on the other device. -/
structure ShuffleState where
  seed : Nat
  initialTrack : String
  deriving DecidableEq, Repr

structure ConnectState where
  player : PlayerState
  unavailableUri : List String
  queueCount : Nat
  activeContext : ContextType
  fillUpContext : ContextType
  context : Option StateContext
  transferShuffle : Option ShuffleState
  autoplayContext : Option StateContext
  deriving DecidableEq, Repr

/-- The errors of the state, and that of a uri which it passes on. -/
inductive StateError where
  | couldNotResolveTrackFromTransfer
  | noContext (ty : ContextType)
  | canNotFindTrackInContext (index : Option Nat) (length : Nat)
  | currentlyDisallowed (action reason : String)
  | contextHasNoTracks
  | unsupportedLocalPlayback
  | invalidTrackUri (uri : Option String)
  | uri (why : SpotifyUriError)
  deriving DecidableEq, Repr

/-- The state an operation leaves behind, and its result. -/
abbrev Reply (A : Type) := ConnectState × Except StateError A

/-- The `?` operator. -/
def Reply.andThen {A B : Type} (r : Reply A) (f : ConnectState → A → Reply B) : Reply B :=
  match r with
  | (s, .ok a) => f s a
  | (s, .error e) => (s, .error e)

theorem Reply.andThen_ok {A B : Type} {r : Reply A} {f : ConnectState → A → Reply B}
    {s' : ConnectState} {b : B} (done : r.andThen f = (s', .ok b)) :
    ∃ s a, r = (s, .ok a) ∧ f s a = (s', .ok b) := by
  obtain ⟨s, a | a⟩ := r
  · exact absurd (congrArg Prod.snd done) (by simp [Reply.andThen])
  · exact ⟨s, a, rfl, done⟩

namespace ConnectState

variable (s : ConnectState)

def setPlayer (f : PlayerState → PlayerState) : ConnectState :=
  { s with player := f s.player }

def repeatContext : Bool := s.player.options.repeatingContext

def repeatTrack : Bool := s.player.options.repeatingTrack

def setRepeatTrack (enabled : Bool) : ConnectState :=
  s.setPlayer fun p => { p with options := { p.options with repeatingTrack := enabled } }

def getContext : ContextType → Except StateError StateContext
  | .default => s.context.elim (.error (.noContext .default)) .ok
  | .autoplay => s.autoplayContext.elim (.error (.noContext .autoplay)) .ok

def setContext (ty : ContextType) (ctx : StateContext) : ConnectState :=
  match ty with
  | .default => { s with context := some ctx }
  | .autoplay => { s with autoplayContext := some ctx }

def updateContextIndex (ty : ContextType) (newIndex : Nat) : Reply Unit :=
  match s.getContext ty with
  | .error e => (s, .error e)
  | .ok ctx => (s.setContext ty { ctx with index := { ctx.index with track := newIndex } }, .ok ())

def updateCurrentIndex (f : Nat → Nat) : ConnectState :=
  s.setPlayer fun p =>
    let index := p.index.getD ⟨0, 0⟩
    { p with index := some { index with track := f index.track } }

variable (track : ProvidedTrack)

def setTrack : ConnectState :=
  s.setPlayer fun p => { p with track := some track }

/-- `is_playing` as other devices see it. -/
def isPlaying : Bool := s.player.isPlaying && !s.player.isPaused

def isPause : Bool :=
  s.player.isPlaying && s.player.isPaused && s.player.isBuffering

/-- Playing and pausing is only restricted where restrictions are already set. -/
def restrictPlaying (r : Restrictions) : Restrictions :=
  let r := if s.isPlaying then
      { r with disallowPausingReasons := [], disallowResumingReasons := ["not_paused"] }
    else r
  if s.isPause then
    { r with disallowResumingReasons := [], disallowPausingReasons := ["not_playing"] }
  else r

def updateRestrictions : ConnectState :=
  let r := (s.player.restrictions.map s.restrictPlaying).getD .new
  let noPrev := if s.player.prevTracks.isEmpty then ["no previous tracks"] else []
  let autoplay := if s.player.track.any ProvidedTrack.isAutoplay then ["autoplay"] else []
  s.setPlayer fun p => { p with restrictions := some { r with
    disallowPeekingPrevReasons := noPrev
    disallowSkippingPrevReasons := noPrev
    disallowTogglingShuffleReasons := autoplay
    disallowTogglingRepeatContextReasons := autoplay
    disallowTogglingRepeatTrackReasons := autoplay } }

def setActiveContext (newContext : ContextType) : ConnectState :=
  let s := { s with activeContext := newContext }
  let s := s.setPlayer fun p => { p with
    contextMetadata := [], contextRestrictions := some .new, restrictions := some .new }
  match s.getContext newContext with
  | .error _ => s
  | .ok ctx => s.setPlayer fun p => { p with
      restrictions := some (ctx.restrictions.getD .new), contextMetadata := ctx.metadata }

/-- The track a shuffled context started with is not repeated in its first round. -/
def isSkipTrack (iteration : Option Nat) : Bool :=
  match s.getContext s.activeContext with
  | .error _ => false
  | .ok ctx => ctx.metadata.get "initial_track" == some track.uri &&
      (iteration == none || iteration == some 0)

def newDelimiter (iteration : Nat) : ProvidedTrack where
  uri := "spotify:delimiter"
  uid := s!"delimiter{iteration}"
  metadata := [("iteration", toString iteration), ("hidden", "true")]
  provider := .context

def pushPrev (prev : ProvidedTrack) : ConnectState :=
  s.setPlayer fun p =>
    let prevTracks := if SPOTIFY_MAX_PREV_TRACKS_SIZE ≤ p.prevTracks.length then p.prevTracks.drop 1
      else p.prevTracks
    { p with prevTracks := prevTracks ++ [prev] }

def setCurrentTrack (index : Nat) : Reply Unit :=
  match s.getContext s.activeContext with
  | .error e => (s, .error e)
  | .ok ctx =>
    match ctx.tracks.vec[index]? with
    | none => (s, .error (.canNotFindTrackInContext (some index) ctx.tracks.vec.length))
    | some newTrack => ((s.setTrack newTrack).updateCurrentIndex fun _ => index, .ok ())

/-- The local variables of the fill-up loop. -/
structure FillCursor where
  newIndex : Nat
  iteration : Nat

/-- The tracks the loop passes over without adding one. -/
def skipped (tracks : List ProvidedTrack) (c : FillCursor) : Nat :=
  ((tracks.drop c.newIndex).takeWhile fun t =>
    t.isUnavailable || s.isSkipTrack t (some c.iteration)).length

/-- The rounds of the loop up to the next track that is added. Without a track
the loop is left; the cursor is behind what was passed over. -/
def nextFill (c : FillCursor) : Reply (Option ProvidedTrack × FillCursor) :=
  match s.getContext s.fillUpContext with
  | .error e => (s, .error e)
  | .ok ctx =>
    let c := { c with newIndex := c.newIndex + s.skipped ctx.tracks.vec c }
    match ctx.tracks.vec[c.newIndex]? with
    | some ct => (s, .ok (some ct, { c with newIndex := c.newIndex + 1 }))
    | none =>
      if s.repeatContext then
        (s, .ok (some (newDelimiter c.iteration), ⟨0, c.iteration + 1⟩))
      else if s.fillUpContext ≠ .autoplay ∧ s.autoplayContext.isSome then
        -- the autoplay context takes over behind a delimiter
        (s.updateContextIndex s.fillUpContext c.newIndex).andThen fun s _ =>
          let s := { s with fillUpContext := .autoplay }
          match s.getContext .autoplay with
          | .error e => (s, .error e)
          | .ok autoplay =>
            (s, .ok (some (newDelimiter c.iteration), { c with newIndex := autoplay.index.track }))
      else
        match s.autoplayContext.bind fun autoplay => autoplay.tracks.vec[c.newIndex]? with
        | some ct => (s, .ok (some ct, { c with newIndex := c.newIndex + 1 }))
        | none => (s, .ok (none, c))

/-- The loop, with room for a number of further tracks. -/
def fillLoop : Nat → ConnectState → FillCursor → Reply FillCursor
  | 0, s, c => (s, .ok c)
  | room + 1, s, c =>
    (s.nextFill c).andThen fun s next =>
      match next with
      | (none, c) => (s, .ok c)
      | (some track, c) =>
        fillLoop room (s.setPlayer fun p => { p with nextTracks := p.nextTracks ++ [track] }) c

def fillUpNextTracks : Reply Unit :=
  match s.getContext s.fillUpContext with
  | .error e => (s, .error e)
  | .ok ctx =>
    (fillLoop (SPOTIFY_MAX_NEXT_TRACKS_SIZE - s.player.nextTracks.length) s
      ⟨ctx.index.track, ctx.index.page⟩).andThen fun s c =>
        s.updateContextIndex s.fillUpContext c.newIndex

/-- The next track that can be played, with the tracks that are left; delimiters
on the way become previous tracks, unavailable tracks are dropped. -/
def takeNextTrack : List ProvidedTrack → ConnectState → Option ProvidedTrack × ConnectState
  | [], s => (none, s.setPlayer fun p => { p with nextTracks := [] })
  | next :: rest, s =>
    if next.isDelimiter then takeNextTrack rest (s.pushPrev next)
    else if next.isUnavailable then takeNextTrack rest s
    else (some next, s.setPlayer fun p => { p with nextTracks := rest })

/-- The index the player reports for a track it moves on to. -/
def newIndex : ConnectState × Option Nat :=
  if track.isQueue then (s, none)
  else if track.isAutoplay then (s.setActiveContext .autoplay, none)
  else (s, track.getContextIndex)

def currentIndex : Nat := (s.player.index.getD ⟨0, 0⟩).track

/-- The old track joins the previous tracks if it comes from a context. -/
def retireTrack : ConnectState :=
  let s' := s.setPlayer fun p => { p with track := none }
  match s.player.track with
  | some oldTrack => if oldTrack.isContext || oldTrack.isAutoplay then s'.pushPrev oldTrack else s'
  | none => s'

def startTrack (newTrack : ProvidedTrack) : Reply (Option Nat) :=
  let (s, updateIndex) := s.newIndex newTrack
  let s := match updateIndex with
    | some index => s.updateCurrentIndex fun _ => index
    | none => s.setPlayer fun p => { p with index := none }
  let s := (s.setTrack newTrack).updateRestrictions
  (s, .ok (some s.currentIndex))

def nextTrack : Reply (Option Nat) :=
  let s := if s.repeatTrack then s.setRepeatTrack false else s
  let s := s.retireTrack
  match takeNextTrack s.player.nextTracks s with
  | (none, s) => (s, .ok none)
  | (some newTrack, s) => s.fillUpNextTracks.andThen fun s _ => s.startTrack newTrack

/-- The old track goes back in front of the next tracks if it comes from a context. -/
def reinsertTrack : ConnectState :=
  let s' := s.setPlayer fun p => { p with track := none }
  match s.player.track with
  | some oldTrack =>
    if oldTrack.isContext || oldTrack.isAutoplay then
      s'.setPlayer fun p => { p with nextTracks := oldTrack :: p.nextTracks }
    else s'
  | none => s'

/-- A delimiter at the end of the previous tracks goes back to the next tracks. -/
def returnDelimiter : ConnectState :=
  match s.player.prevTracks.getLast? with
  | none => s
  | some delimiter =>
    if delimiter.isDelimiter then
      s.setPlayer fun p =>
        let nextTracks := if SPOTIFY_MAX_NEXT_TRACKS_SIZE ≤ p.nextTracks.length then
            p.nextTracks.dropLast
          else p.nextTracks
        { p with prevTracks := p.prevTracks.dropLast, nextTracks := delimiter :: nextTracks }
    else s

/-- The next tracks beyond the limit are popped from the back. -/
def trimNextTracks : ConnectState :=
  s.setPlayer fun p => { p with nextTracks := p.nextTracks.take SPOTIFY_MAX_NEXT_TRACKS_SIZE }

def backTo (newTrack : ProvidedTrack) : Reply (Option ProvidedTrack) :=
  let s := s.setTrack newTrack
  let s := if s.currentIndex = 0 then s else s.updateCurrentIndex fun i => i - 1
  (s.updateRestrictions, .ok (some newTrack))

def prevTrack : Reply (Option ProvidedTrack) :=
  let s := s.reinsertTrack.returnDelimiter.trimNextTracks
  match s.player.prevTracks.getLast? with
  | none => (s, .ok none)
  | some newTrack =>
    let s := s.setPlayer fun p => { p with prevTracks := p.prevTracks.dropLast }
    let s := if s.activeContext = .autoplay ∧ newTrack.isContext then s.setActiveContext .default
      else s
    s.fillUpNextTracks.andThen fun s _ => s.backTo newTrack

def clearQueue : Reply Unit :=
  (s.setPlayer fun p =>
    { p with nextTracks := p.nextTracks.filter fun t => !t.isQueue }).fillUpNextTracks

/-- Only the queued tracks at the front are kept. -/
def clearNextTracks : ConnectState :=
  s.setPlayer fun p => { p with nextTracks := p.nextTracks.takeWhile ProvidedTrack.isQueue }

/-- The track as it is queued: with a uid of its own and marked as queued. -/
def queued : ProvidedTrack where
  uri := track.uri
  uid := "q" ++ toString s.queueCount
  provider := .queue
  metadata := if track.isFromQueue then track.metadata
    else track.metadata.insert "is_queued" "true"

/-- Behind the queued tracks that are at the front already. -/
def insertQueued (nextTracks : List ProvidedTrack) : List ProvidedTrack :=
  nextTracks.takeWhile ProvidedTrack.isQueue ++
    track :: nextTracks.dropWhile ProvidedTrack.isQueue

def addToQueue : ConnectState :=
  let track := s.queued track
  let s := { s with queueCount := s.queueCount + 1 }
  let s := s.setPlayer fun p => { p with nextTracks := insertQueued track p.nextTracks }
  s.trimNextTracks.updateRestrictions

/-- Up to ten tracks in front of a position. -/
def tracksBefore (tracks : List ProvidedTrack) (newIndex : Nat) : List ProvidedTrack :=
  ((tracks.reverse.drop (wrappingSub tracks.length newIndex)).take
    SPOTIFY_MAX_PREV_TRACKS_SIZE).reverse

/-- A queued track and the one a shuffled context started with stay. -/
def resetTrack (newIndex : Nat) : Reply Unit :=
  let current := s.player.track.getD .new
  if current.isQueue || s.isSkipTrack current none then (s, .ok ()) else s.setCurrentTrack newIndex

def resetPrevTracks (newIndex : Nat) : Reply Unit :=
  let s := s.setPlayer fun p => { p with prevTracks := [] }
  if newIndex = 0 then (s, .ok ())
  else
    match s.getContext s.activeContext with
    | .error e => (s, .error e)
    | .ok ctx =>
      (s.setPlayer fun p => { p with prevTracks := tracksBefore ctx.tracks.vec newIndex }, .ok ())

def resetPlaybackToPosition (newIndex : Option Nat) : Reply Unit :=
  let newIndex := newIndex.getD 0
  let s := s.updateCurrentIndex fun _ => newIndex
  (s.updateContextIndex s.activeContext (wrappingAdd newIndex 1)).andThen fun s _ =>
    let s := { s with fillUpContext := s.activeContext }
    (s.resetTrack newIndex).andThen fun s _ =>
      (s.resetPrevTracks newIndex).andThen fun s _ =>
        s.clearNextTracks.fillUpNextTracks.andThen fun s _ => (s.updateRestrictions, .ok ())

end ConnectState

end Connect
