import SqueezeboxConnect.ContextRuns
import SqueezeboxConnect.Refills

/-!
# Unavailable tracks

Marking a track as unavailable removes it from the lists around the current
track and remembers its uri for contexts that are loaded later. The contexts
that are already loaded are not touched, and neither is the current track. So
the track stays out as long as the contexts have it only where nothing is
filled in from any more.
-/

namespace Unavailable

open Connect ConnectState ContextWindow ConnectDeck Refills Runs

inductive Op where
  | nextTrack
  | prevTrack
  | clearQueue
  | fillUpNextTracks
  deriving DecidableEq

def apply (s : ConnectState) : Op → ConnectState
  | .nextTrack => s.nextTrack.1
  | .prevTrack => s.prevTrack.1
  | .clearQueue => s.clearQueue.1
  | .fillUpNextTracks => s.fillUpNextTracks.1

/-- In no run is a track with the uri a next one, and no operation makes one the current
track. -/
def StaysOut (uri : String) (s : ConnectState) : Prop :=
  ∀ ops, (∀ t ∈ (run apply s ops).player.nextTracks, t.uri ≠ uri) ∧
    ∀ op t, (apply (run apply s ops) op).player.track = some t → t.uri = uri →
      (run apply s ops).player.track = some t

/-- A current track with the uri would be left behind, and none is still to be filled in. -/
def KeptOut (uri : String) (s : ConnectState) : Prop :=
  (∀ t ∈ s.player.track, t.uri = uri → (t.isContext || t.isAutoplay) = false) ∧
    ∀ t ∈ refills s, t.uri ≠ uri

/-- The uri is not in the lists either. -/
structure Banned (uri : String) (s : ConnectState) : Prop where
  prev : ∀ t ∈ s.player.prevTracks, t.uri ≠ uri
  next : ∀ t ∈ s.player.nextTracks, t.uri ≠ uri
  kept : KeptOut uri s

variable {uri : String} {s : ConnectState} {t : ProvidedTrack}

section Stays

variable (notDelimiter : uri ≠ "spotify:delimiter") (h : Banned uri s)
include h

theorem retired_uri : ∀ t ∈ retired s, t.uri ≠ uri := by
  intro t inside
  rcases mem_retired inside with old | ⟨current, joins⟩
  · exact h.prev t old
  · intro same
    rw [h.kept.1 t current same] at joins
    cases joins

/-- A track with the uri that is playing does not go back to the next tracks. -/
theorem reinserted_uri : ∀ t ∈ reinserted s, t.uri ≠ uri := by
  intro t inside
  simp only [reinserted, List.mem_append, Option.mem_toList] at inside
  rcases inside with (delimiter | current) | next
  · obtain ⟨prevTracks, prev, -⟩ := returned_eq s
    exact h.prev t (by simp [prev, delimiter])
  · obtain ⟨current, returns⟩ := Option.filter_eq_some_iff.mp current
    intro same
    rw [h.kept.1 t current same] at returns
    cases returns
  · exact h.next t next

include notDelimiter

theorem brought_uri (brought : t ∈ refills s ∨ ∃ i, t = newDelimiter i) : t.uri ≠ uri := by
  rcases brought with comes | ⟨i, rfl⟩
  · exact h.kept.2 t comes
  · exact notDelimiter.symm

theorem fillUpNextTracks_banned : Banned uri s.fillUpNextTracks.1 := by
  obtain ⟨added, fillUp, i, j, filled, within, fewer⟩ := fillUp_refills s
  refine ⟨?_, ?_, ?_, fun t inside => h.kept.2 t (fewer inside)⟩
  · rw [filled]
    exact h.prev
  · rw [filled]
    intro t inside
    rcases List.mem_append.mp inside with old | new
    · exact h.next t old
    · exact brought_uri notDelimiter h (within t new)
  · rw [filled]
    exact h.kept.1

theorem nextTrack_banned : Banned uri s.nextTrack.1 ∧
    ∀ t, s.nextTrack.1.player.track = some t → t.uri ≠ uri := by
  obtain ⟨newTrack, passed, rest, added, moves⟩ := nextTrack_spec s
  obtain ⟨brought, fewer⟩ := nextTrack_refills s
  have next := h.next
  rw [moves.takes.split] at next
  have played : ∀ t, s.nextTrack.1.player.track = some t → t.uri ≠ uri := by
    intro t current
    rcases moves.track with played | ⟨lost, -⟩
    · exact next t (by simp [played.symm.trans current])
    · rw [lost] at current
      cases current
  refine ⟨⟨?_, ?_, fun t current same => absurd same (played t current),
    fun t inside => h.kept.2 t (fewer inside)⟩, played⟩
  · intro t inside
    rcases moves.takes.prev t inside with old | ⟨inside, -⟩
    · exact retired_uri h t old
    · exact next t (by simp [inside])
  · intro t inside
    rcases brought t inside with old | new
    · exact h.next t old
    · exact brought_uri notDelimiter h new

theorem prevTrack_banned : Banned uri s.prevTrack.1 ∧
    ∀ t, s.prevTrack.1.player.track = some t → t.uri ≠ uri := by
  obtain ⟨newTrack, added, back⟩ := prevTrack_spec s
  obtain ⟨brought, fewer⟩ := prevTrack_refills s
  have prev := h.prev
  rw [back.prev] at prev
  have played : ∀ t, s.prevTrack.1.player.track = some t → t.uri ≠ uri := by
    intro t current
    rcases back.track with played | lost
    · exact prev t (by simp [played.symm.trans current])
    · rw [lost] at current
      cases current
  refine ⟨⟨fun t inside => prev t (by simp [inside]), ?_,
    fun t current same => absurd same (played t current),
    fun t inside => h.kept.2 t (fewer inside)⟩, played⟩
  intro t inside
  rcases brought t inside with old | new
  · exact reinserted_uri h t old
  · exact brought_uri notDelimiter h new

theorem clearQueue_banned : Banned uri s.clearQueue.1 :=
  fillUpNextTracks_banned notDelimiter
    ⟨h.prev, fun t inside => h.next t (List.mem_filter.mp inside).1, h.kept⟩

theorem apply_banned (op : Op) : Banned uri (apply s op) ∧
    ∀ t, (apply s op).player.track = some t → t.uri = uri → s.player.track = some t := by
  cases op with
  | nextTrack =>
    obtain ⟨banned, played⟩ := nextTrack_banned notDelimiter h
    exact ⟨banned, fun t current same => absurd same (played t current)⟩
  | prevTrack =>
    obtain ⟨banned, played⟩ := prevTrack_banned notDelimiter h
    exact ⟨banned, fun t current same => absurd same (played t current)⟩
  | clearQueue =>
    refine ⟨clearQueue_banned notDelimiter h, fun t current _ => ?_⟩
    obtain ⟨_, _, _, _, filled, -⟩ := fillUp_spec (s.setPlayer fun p =>
      { p with nextTracks := p.nextTracks.filter fun t => !t.isQueue })
    rwa [apply, clearQueue, filled] at current
  | fillUpNextTracks =>
    refine ⟨fillUpNextTracks_banned notDelimiter h, fun t current _ => ?_⟩
    obtain ⟨_, _, _, _, filled, -⟩ := fillUp_spec s
    rwa [apply, filled] at current

theorem staysOut_of_banned : StaysOut uri s := by
  intro ops
  have keeps : ∀ s op, Banned uri s → Banned uri (apply s op) :=
    fun _ op h => (apply_banned notDelimiter h op).1
  have banned := run_invariant' keeps ops h
  exact ⟨banned.next, fun op => (apply_banned notDelimiter banned op).2⟩

end Stays

section Returns

theorem uri_of_wanted (want : wanted uri t = true) : t.uri = uri := by
  simp only [wanted, Bool.and_eq_true, beq_iff_eq] at want
  exact want.1

/-- What is still to be filled in gets among the next tracks. -/
theorem comes_back {n d : Nat} (unmarked : Unmarked uri s) (coming : Coming uri s d)
    (more : 0 < s.player.nextTracks.length) (measure : d + s.player.nextTracks.length = n) :
    ∃ ops, ∃ t ∈ (run apply s ops).player.nextTracks, t.uri = uri := by
  induction n using Nat.strong_induction_on generalizing s d with
  | _ n ih =>
    obtain ⟨unmarked₁, ⟨t, inside, want⟩ | ⟨d₁, coming₁, closer₁⟩⟩ :=
      nextTrack_nearer unmarked coming more
    · exact ⟨[.nextTrack], t, inside, uri_of_wanted want⟩
    · obtain ⟨g, filled, unmarked₂, ⟨t, inside, want⟩ | ⟨d₂, coming₂, closer₂, full⟩⟩ :=
        fillUp_nearer unmarked₁ coming₁
      · refine ⟨[.nextTrack, .fillUpNextTracks], t, ?_, uri_of_wanted want⟩
        simpa [run, apply, filled] using inside
      · obtain ⟨ops, t, inside, same⟩ := ih _ (by omega) unmarked₂ coming₂
          (Nat.lt_of_lt_of_le (by decide) full) rfl
        refine ⟨.nextTrack :: .fillUpNextTracks :: ops, t, ?_, same⟩
        simpa [run, apply, filled] using inside

/-- Going back puts a current track that comes from a context in front of the next tracks. -/
theorem current_returns (current : s.player.track = some t)
    (returns : (t.isContext || t.isAutoplay) = true) : t ∈ s.prevTrack.1.player.nextTracks := by
  obtain ⟨newTrack, added, back⟩ := prevTrack_spec s
  have front : reinserted s = (lastDelimiter s ++ [t]) ++ s.player.nextTracks := by
    rw [reinserted, current, Option.filter_some, if_pos returns]
    rfl
  have short : (lastDelimiter s ++ [t]).length ≤ SPOTIFY_MAX_NEXT_TRACKS_SIZE := by
    rw [lastDelimiter, SPOTIFY_MAX_NEXT_TRACKS_SIZE]
    cases s.player.prevTracks.getLast?.filter ProvidedTrack.isDelimiter <;> simp
  rw [back.next, front, List.take_append, List.take_of_length_le short]
  simp

end Returns

theorem removeUri_uri (tracks : List ProvidedTrack) : ∀ t ∈ removeUri uri tracks, t.uri ≠ uri := by
  intro t inside
  simp only [removeUri, List.mem_map, List.mem_filter, bne_iff_ne] at inside
  obtain ⟨old, ⟨-, other⟩, rfl⟩ := inside
  rw [markAsUnavailableForMatch, if_neg other]
  exact other

/-- A uri has a colon in front of the type of the item and one behind it. -/
theorem toUri_colons (id : SpotifyUri) : 2 ≤ id.toUri.count ':' := by
  have root : "spotify:".toList.count ':' = 1 := by decide +kernel
  rw [SpotifyUri.toUri.eq_def]
  split
  · simp only [List.append_assoc, List.cons_append, List.count_append, List.count_cons_self]
    omega
  · simp only [List.append_assoc, List.count_append, List.count_cons_self, root]
    omega

theorem toUri_ne_delimiter (id : SpotifyUri) : String.ofList id.toUri ≠ "spotify:delimiter" := by
  intro same
  have one : "spotify:delimiter".toList.count ':' = 1 := by decide +kernel
  have two := toUri_colons id
  rw [← String.toList_ofList (l := id.toUri), same] at two
  omega

/-- The state that is filled up when a track has been marked. -/
def marked (uri : String) (s : ConnectState) : ConnectState :=
  { s with
    player := { s.player with
      nextTracks := removeUri uri s.player.nextTracks
      prevTracks := removeUri uri s.player.prevTracks }
    unavailableUri := s.unavailableUri ++ [uri] }

theorem marked_sameSource (uri : String) (s : ConnectState) : SameSource s (marked uri s) :=
  ⟨rfl, rfl, rfl, rfl⟩

theorem marked_banned (kept : KeptOut uri s) : Banned uri (marked uri s) := by
  refine ⟨removeUri_uri s.player.prevTracks, removeUri_uri s.player.nextTracks, kept.1, ?_⟩
  rw [refills_sameSource (marked_sameSource uri s)]
  exact kept.2

theorem keptOut_of_staysOut (unmarked : Unmarked uri s)
    (out : StaysOut uri (marked uri s).fillUpNextTracks.1) : KeptOut uri s := by
  constructor
  · intro t current same
    by_contra returns
    obtain ⟨_, _, _, _, filled, -⟩ := fillUp_spec (marked uri s)
    have playing : (marked uri s).fillUpNextTracks.1.player.track = some t := by
      rw [filled]
      exact current
    exact (out [.prevTrack]).1 t (current_returns playing (Bool.not_eq_false _ ▸ returns)) same
  · intro t inside same
    obtain ⟨d, coming⟩ := coming_of_refills ⟨t, inside, same⟩
    have source := marked_sameSource uri s
    obtain ⟨g, filled, unmarked', ⟨t', inside', want⟩ | ⟨d', coming', -, full⟩⟩ :=
      fillUp_nearer (unmarked_sameSource source unmarked) (coming_sameSource source coming)
    · rw [filled] at out
      exact (out []).1 t' inside' (uri_of_wanted want)
    · rw [filled] at out
      obtain ⟨ops, t', inside', same'⟩ :=
        comes_back unmarked' coming' (Nat.lt_of_lt_of_le (by decide) full) rfl
      exact (out ops).1 t' inside' same'

/-- What is marked stays out if it is not playing from a context and none with its uri is still
to be filled in. A track that no shuffled context began with stays out only then. -/
theorem staysOut_iff (s : ConnectState) (id : SpotifyUri) :
    (KeptOut (String.ofList id.toUri) s →
      StaysOut (String.ofList id.toUri) (s.markUnavailable id).1) ∧
    (Unmarked (String.ofList id.toUri) s →
      StaysOut (String.ofList id.toUri) (s.markUnavailable id).1 →
        KeptOut (String.ofList id.toUri) s) :=
  ⟨fun kept => staysOut_of_banned (toUri_ne_delimiter id)
    (fillUpNextTracks_banned (toUri_ne_delimiter id) (marked_banned kept)), keptOut_of_staysOut⟩

def item : SpotifyUri := .track ⟨0⟩

def contextTrack (uri : String) : ProvidedTrack := ⟨uri, uri, [], .context⟩

def itemTrack : ProvidedTrack := contextTrack (String.ofList item.toUri)

/-- Playback of a context from its first track on. -/
def playing (tracks : List ProvidedTrack) (repeats : Bool) : ConnectState :=
  (((ContextRuns.loaded tracks none).setRepeatContext repeats).resetPlaybackToPosition (some 0)).1

/-- A track is marked that has been filled in from a context which does not repeat. -/
theorem nextItem_staysOut :
    StaysOut (String.ofList item.toUri)
      ((playing [contextTrack "a", itemTrack, contextTrack "b"] false).markUnavailable item).1 :=
  (staysOut_iff _ item).1 ⟨by decide +kernel, by decide +kernel⟩

/-- A repeated context brings the marked track back at once, and going back brings
back a track that was marked while it was playing. -/
theorem item_comes_back :
    ¬ StaysOut (String.ofList item.toUri)
      ((playing [contextTrack "a", itemTrack] true).markUnavailable item).1 ∧
    ¬ StaysOut (String.ofList item.toUri)
      ((playing [itemTrack, contextTrack "b"] false).markUnavailable item).1 := by
  constructor
  · intro out
    exact (out []).1 itemTrack (by decide +kernel) rfl
  · intro out
    have current := (out [.nextTrack]).2 .prevTrack itemTrack (by decide +kernel) rfl
    revert current
    decide +kernel

end Unavailable
