import SqueezeboxConnect.ResetWindow
import SqueezeboxConnect.ContextPositions

/-!
# The index the player reports

`next_track` sets the index to the one the new track carries, or clears it for
a queued track. `prev_track` counts the index down by one, whatever track it
goes back to. The index is therefore right until the track that playback goes
back to is not the one in front of the index.
-/

namespace ReportedIndex

open Connect ConnectState Runs ContextWindow ContextRuns ConnectDeck ContextPositions ResetWindow
  Words

/-- A current track of the context is reported with the index it carries. -/
def Reports (tracks : List ProvidedTrack) (s : ConnectState) : Prop :=
  ∀ t, s.player.track = some t → t ∈ tracks → t.getContextIndex = some s.currentIndex

/-- The track that going back leads to: the last previous one, or the one in front
of a delimiter. -/
def lastPlayed (s : ConnectState) : Option ProvidedTrack :=
  match s.player.prevTracks.reverse with
  | [] => none
  | t :: rest => if t.isDelimiter then rest.head? else some t

/-- Where playback goes back to a track of the context, it is the one in front of the
index. -/
def StepsBack (tracks : List ProvidedTrack) (s : ConnectState) (op : Op) : Prop :=
  op = .prevTrack → ∀ t, lastPlayed s = some t → t ∈ tracks →
    t.getContextIndex = some (s.currentIndex - 1)

section Step

variable {tracks : List ProvidedTrack} {s : ConnectState}

theorem positioned_index (positioned : Positioned tracks) {t : ProvidedTrack}
    (inside : t ∈ tracks) :
    ∃ i, t.getContextIndex = some i := by
  obtain ⟨i, found⟩ := List.mem_iff_getElem?.mp inside
  exact ⟨i, positioned i t found⟩

theorem reports_of_none (absent : s.player.track = none) : Reports tracks s := by
  intro t current
  rw [absent] at current
  cases current

theorem startTrack_index {t : ProvidedTrack} (provider : t.provider = .context) {i : Nat}
    (index : t.getContextIndex = some i) : (s.startTrack t).1.currentIndex = i := by
  have queue : t.isQueue = false := by simp [ProvidedTrack.isQueue, provider]
  have autoplay : t.isAutoplay = false := by simp [ProvidedTrack.isAutoplay, provider]
  simp only [startTrack, newIndex, queue, autoplay, index]
  rfl

theorem loaded_startTrack (loaded : Loaded s) (t : ProvidedTrack) : Loaded (s.startTrack t).1 := by
  have deck := startTrack_deck s t
  refine loaded_congr deck.context_eq deck.autoplay_eq ?_ loaded
  have active : ∀ ty, (s.setActiveContext ty).fillUpContext = s.fillUpContext := by
    intro ty
    simp only [setActiveContext]
    split <;> rfl
  simp only [startTrack, newIndex]
  repeat' split
  all_goals first | rfl | exact active .autoplay

/-- What follows once a track has been taken sets the index that it carries. -/
theorem playTaken_reports (default : DefaultTracks tracks) (positioned : Positioned tracks)
    {newTrack : Option ProvidedTrack} (available : ∀ t ∈ newTrack, t.isUnavailable = false)
    (empty : s.player.track = none) : Reports tracks (playTaken newTrack s).1 := by
  cases newTrack with
  | none => exact reports_of_none empty
  | some t =>
    obtain ⟨added, fillUp, i, j, filled, -⟩ := fillUp_spec s
    simp only [playTaken]
    generalize s.fillUpNextTracks = reply at filled
    obtain ⟨s', outcome⟩ := reply
    subst filled
    cases outcome with
    | error e => exact reports_of_none empty
    | ok _ =>
      have track := (startTrack_deck (refilled s added fillUp i j) t).track_eq
      intro u current inside
      obtain rfl : t = u := Option.some.inj (track.symm.trans current)
      obtain ⟨k, index⟩ := positioned_index positioned inside
      have provider : t.provider = .context := by
        rcases default t inside with context | unavailable
        · exact context
        · have playable := available t rfl
          simp [ProvidedTrack.isUnavailable, unavailable] at playable
      rw [index]
      exact congrArg some (startTrack_index provider index).symm

theorem loaded_playTaken (loaded : Loaded s) (newTrack : Option ProvidedTrack) :
    Loaded (playTaken newTrack s).1 := by
  cases newTrack with
  | none => exact loaded
  | some t =>
    have filled := fillUp_loaded loaded
    exact andThen_state filled fun _ => loaded_startTrack filled t

/-- Moving on reports the new track, whatever was reported before. -/
theorem nextTrack_reports (default : DefaultTracks tracks) (positioned : Positioned tracks) :
    Reports tracks s.nextTrack.1 := by
  obtain ⟨s₁, newTrack, passed, rest, prevTracks, -, takes, result⟩ := nextTrack_takes s
  rw [result]
  exact playTaken_reports default positioned (fun t new => (takes.playable t new).2) rfl

theorem loaded_nextTrack (loaded : Loaded s) : Loaded s.nextTrack.1 := by
  obtain ⟨s₁, newTrack, passed, rest, prevTracks, same, -, result⟩ := nextTrack_takes s
  have loaded₁ : Loaded s₁ := loaded_congr same.context_eq same.autoplay_eq same.fillUp_eq loaded
  have still : Loaded (placed s₁ none prevTracks rest) := loaded₁
  rw [result]
  exact loaded_playTaken still newTrack

theorem backTo_index (s : ConnectState) (t : ProvidedTrack) :
    (s.backTo t).1.currentIndex = s.currentIndex - 1 := by
  have same : (s.setTrack t).currentIndex = s.currentIndex := rfl
  simp only [backTo, same]
  split
  · rename_i first
    rw [first]
    exact first
  · rfl

theorem playReturned_index (loaded : Loaded s) (newTrack : ProvidedTrack) :
    let s' := (playReturned s newTrack).1
    s'.player.track = some newTrack ∧ s'.currentIndex = s.currentIndex - 1 ∧ Loaded s' := by
  obtain ⟨s₁, result, deck, index, fillUp⟩ := playReturned_eq s newTrack
  have loaded₁ := loaded_congr deck.context_eq deck.autoplay_eq fillUp loaded
  obtain ⟨added, fillUp', i, j, filled, -⟩ := fillUp_spec s₁
  have still := fillUp_loaded loaded₁
  rw [result, fillUp_done loaded₁]
  rw [filled] at still ⊢
  have window := backTo_spec (refilled s₁ added fillUp' i j) newTrack
  refine ⟨window.track_eq, ?_,
    loaded_congr window.context_eq window.autoplay_eq window.fillUp_eq still⟩
  have counted := backTo_index (refilled s₁ added fillUp' i j) newTrack
  have same : (refilled s₁ added fillUp' i j).currentIndex = s.currentIndex := by
    simp only [currentIndex, refilled, index]
  rw [same] at counted
  exact counted

theorem lastPlayed_eq {prevTracks : List ProvidedTrack}
    (split : s.player.prevTracks = prevTracks ++ lastDelimiter s) :
    lastPlayed s = prevTracks.getLast? := by
  rw [lastPlayed]
  cases last : s.player.prevTracks.getLast? with
  | none =>
    have nothing := List.getLast?_eq_none_iff.mp last
    rw [nothing] at split ⊢
    have before : prevTracks = [] := (List.append_eq_nil_iff.mp split.symm).1
    simp [before]
  | some t =>
    have front := List.dropLast_append_getLast? t last
    by_cases delimiter : t.isDelimiter = true
    · have returned : lastDelimiter s = [t] := by simp [lastDelimiter, last, delimiter]
      rw [returned] at split
      rw [split, List.reverse_append]
      simp [delimiter]
    · have returned : lastDelimiter s = [] := by simp [lastDelimiter, last, delimiter]
      rw [returned, List.append_nil] at split
      rw [← split, last, ← front, List.reverse_append]
      simp [delimiter]

/-- Going back sets the last track that was played and counts down. -/
theorem prevTrack_index (loaded : Loaded s) :
    s.prevTrack.1.player.track = lastPlayed s ∧ Loaded s.prevTrack.1 ∧
      ((lastPlayed s).isSome → s.prevTrack.1.currentIndex = s.currentIndex - 1) := by
  obtain ⟨prevTracks, prev, result⟩ := prevTrack_eq s
  rw [result, lastPlayed_eq prev]
  cases last : prevTracks.getLast? with
  | none => exact ⟨rfl, loaded, by simp⟩
  | some newTrack =>
    have loaded' : Loaded (placed s none prevTracks.dropLast
        ((reinserted s).take SPOTIFY_MAX_NEXT_TRACKS_SIZE)) := loaded
    obtain ⟨track, index, still⟩ := playReturned_index loaded' newTrack
    exact ⟨track, still, fun _ => index⟩

theorem prevTrack_reports_iff (loaded : Loaded s) :
    Reports tracks s.prevTrack.1 ↔ StepsBack tracks s .prevTrack := by
  obtain ⟨track, -, index⟩ := prevTrack_index loaded
  constructor
  · intro reports _ t found inside
    rw [← index (by simp [found])]
    exact reports t (track.trans found) inside
  · intro back t current inside
    have found := track.symm.trans current
    rw [index (by simp [found])]
    exact back rfl t found inside

/-- An operation that changes neither the track nor the index. -/
theorem reports_congr {s' : ConnectState} (track : s'.player.track = s.player.track)
    (index : s'.player.index = s.player.index) (reports : Reports tracks s) :
      Reports tracks s' := by
  intro t current inside
  have same : s'.currentIndex = s.currentIndex := by simp only [currentIndex, index]
  rw [same]
  exact reports t (track.symm.trans current) inside

theorem fillUp_reports (reports : Reports tracks s) : Reports tracks s.fillUpNextTracks.1 := by
  obtain ⟨added, fillUp, i, j, filled, -⟩ := fillUp_spec s
  rw [filled]
  exact reports_congr rfl rfl reports

theorem loaded_apply (loaded : Loaded s) (op : Op) : Loaded (apply s op) := by
  cases op with
  | nextTrack => exact loaded_nextTrack loaded
  | prevTrack => exact (prevTrack_index loaded).2.1
  | addToQueue track => exact loaded
  | clearQueue => exact fillUp_loaded (s := s.setPlayer _) loaded
  | fillUpNextTracks => exact fillUp_loaded loaded

/-- Only going back can make the reported index wrong. -/
theorem apply_reports_iff (default : DefaultTracks tracks) (positioned : Positioned tracks)
    (op : Op) (loaded : Loaded s) (reports : Reports tracks s) :
    Reports tracks (apply s op) ↔ StepsBack tracks s op := by
  cases op with
  | prevTrack => exact prevTrack_reports_iff loaded
  | nextTrack => exact iff_of_true (nextTrack_reports default positioned) (by rintro ⟨⟩)
  | addToQueue track => exact iff_of_true (reports_congr rfl rfl reports) (by rintro ⟨⟩)
  | clearQueue =>
    refine iff_of_true (fillUp_reports ?_) (by rintro ⟨⟩)
    exact reports_congr rfl rfl reports
  | fillUpNextTracks => exact iff_of_true (fillUp_reports reports) (by rintro ⟨⟩)

end Step

theorem reset_reports {ctx : StateContext} {s : ConnectState} (h : Active ctx s)
    (default : DefaultTracks ctx.tracks.vec) (positioned : Positioned ctx.tracks.vec)
    (length : ctx.tracks.vec.length ≤ vecMax) {p : Nat} (inside : p < ctx.tracks.vec.length) :
    Reports ctx.tracks.vec (s.resetPlaybackToPosition (some p)).1 ∧
      Loaded (s.resetPlaybackToPosition (some p)).1 := by
  have loaded : Loaded (rewound ctx p s).fillUpNextTracks.1 :=
    fillUp_loaded ⟨_, filling_getContext (rewound_filling h)⟩
  obtain ⟨more, fillUp, i, j, filled, -⟩ := fillUp_continues (rewound_filling (p := p) h)
  rw [reset_eq h length inside, filled]
  rw [filled] at loaded
  refine ⟨?_, loaded⟩
  intro t current member
  change resetCurrent ctx.tracks.vec s p = some t at current
  change _ = some p
  by_cases queued : keepsQueued s = true
  · have isQueue : t.isQueue = true := resetCurrent_queue queued (by simpa using current)
    rcases default t member with provider | provider <;>
      simp [ProvidedTrack.isQueue, provider] at isQueue
  · rw [resetCurrent, if_neg queued] at current
    exact positioned p t current

/-- The index follows the current track exactly as long as playback only goes back to
the track in front of it. -/
theorem reported_iff_stepsBack {ctx : StateContext} {s : ConnectState} (h : Active ctx s)
    (default : DefaultTracks ctx.tracks.vec) (positioned : Positioned ctx.tracks.vec)
    (length : ctx.tracks.vec.length ≤ vecMax) {p : Nat} (inside : p < ctx.tracks.vec.length)
    {s' : ConnectState} (reset : (s.resetPlaybackToPosition (some p)).1 = s') (ops : List Op) :
    (∀ front, front <+: ops → Reports ctx.tracks.vec (run apply s' front)) ↔
      Along apply (StepsBack ctx.tracks.vec) s' ops := by
  subst reset
  obtain ⟨reports, loaded⟩ := reset_reports h default positioned length inside
  exact throughout_iff_along (fun s op still => loaded_apply still op)
    (fun s op still good => apply_reports_iff default positioned op still good) loaded reports

def threeTracks : List ProvidedTrack :=
  [⟨"a", "", [("context_index", "0")], .context⟩, ⟨"b", "", [("context_index", "1")], .context⟩,
    ⟨"c", "", [("context_index", "2")], .context⟩]

theorem threeTracks_positioned : Positioned threeTracks := by
  rw [positioned_iff]
  decide +kernel

theorem threeTracks_default : DefaultTracks threeTracks := by
  unfold DefaultTracks
  decide

theorem forthAndBack_reported :
    let s := startedAt threeTracks none 1
    Reports threeTracks s ∧ Reports threeTracks (run apply s [.nextTrack]) ∧
      Reports threeTracks (run apply s [.nextTrack, .prevTrack, .prevTrack]) := by
  have steps : Along apply (StepsBack threeTracks) (startedAt threeTracks none 1)
      [.nextTrack, .prevTrack, .prevTrack] := by
    refine ⟨by rintro ⟨⟩, ?_, ?_, trivial⟩
    · rintro - t found -
      obtain rfl := Option.some.inj found
      decide +kernel
    · rintro - t found -
      obtain rfl := Option.some.inj found
      decide +kernel
  have reported := (@reported_iff_stepsBack ⟨.ofVec threeTracks, [], none, ⟨0, 0⟩⟩
    (loaded threeTracks none) ⟨rfl, rfl, rfl⟩ threeTracks_default threeTracks_positioned
    (by decide) 1 (by decide) _ rfl _).mpr steps
  refine ⟨reported [] (by simp), reported [.nextTrack] (by simp), ?_⟩
  exact reported _ (List.prefix_refl _)

/-- Going back from a queued track reports the start of the context. -/
theorem backFromQueue_misreported :
    ¬ ∀ front, front <+: [.addToQueue queuedTrack, .nextTrack, .prevTrack] →
      Reports threeTracks (run apply (startedAt threeTracks none 1) front) := by
  intro reported
  have index := reported _ (List.prefix_refl _) ⟨"b", "", [("context_index", "1")], .context⟩
    (by decide +kernel) (by decide)
  revert index
  decide +kernel

end ReportedIndex
