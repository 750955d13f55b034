import SqueezeboxConnect.ContextRuns
import SqueezeboxConnect.Refills

/-!
# Skipping to a track

A remote controller may name the track to skip to. The next tracks are taken one
after the other, and filled up again, until it is the current one. The loop ends
if the track is among the next tracks or is still to be filled in. Otherwise,
once there are no next tracks left, the same state comes round for ever, and in
a context that repeats they are never used up.
-/

namespace SkipNext

open Connect ConnectState ContextWindow ConnectDeck Refills

/-- The loop with a limit on the calls; without a result it has not ended within them. -/
def skipLoop : Nat → ConnectState → Option String → Option (Reply Bool)
  | 0, _, _ => none
  | calls + 1, s, trackUri =>
    match s.nextTrack with
    | (s, .error e) => some (s, .error e)
    | (s, .ok index) =>
      if trackUri.any fun uri => s.currentTrack.uri != uri then skipLoop calls s trackUri
      else some (s, .ok index.isSome)

/-- Whether there is a track to load now; loading or stopping follows. -/
def handleNext (calls : Nat) (s : ConnectState) (trackUri : Option String) : Option (Reply Bool) :=
  if trackUri = some s.currentTrack.uri then some (s, .ok true)
  else skipLoop calls s trackUri

def playable (t : ProvidedTrack) : Bool := !t.isDelimiter && !t.isUnavailable

/-- No track is named, or the current one, or one of the next tracks that can be played. -/
def Named (s : ConnectState) (trackUri : Option String) : Prop :=
  trackUri = none ∨ trackUri = some s.currentTrack.uri ∨
    ∃ t ∈ s.player.nextTracks, trackUri = some t.uri ∧ playable t = true

/-- Only the first of eighty next tracks can be played, and the fill-up context has come to
its end: a delimiter takes the free place. -/
def RunsDry (s : ConnectState) : Prop :=
  s.player.nextTracks.length = SPOTIFY_MAX_NEXT_TRACKS_SIZE ∧
    (∀ t ∈ s.player.nextTracks.drop 1, playable t = false) ∧ upNext s = []

/-- The uri is that of the current track, of a next track that can be played or of one that
is filled in while the next tracks are taken; or filling up fails. -/
def Reaches (uri : String) (s : ConnectState) : Prop :=
  uri = s.currentTrack.uri ∨
  (∃ t ∈ s.player.nextTracks, t.uri = uri ∧ playable t = true) ∨
  (∃ t ∈ s.player.nextTracks, playable t = true) ∧
    (¬ Loaded s ∨ (∃ t ∈ refills s, t.uri = uri) ∧ ¬ RunsDry s)

/-- The next tracks are within their limit, no track of the contexts has the uid of a delimiter,
and no context was shuffled while the track with the uri was playing. -/
structure Regular (uri : String) (s : ConnectState) : Prop where
  named : uri ≠ "spotify:delimiter"
  few : s.player.nextTracks.length ≤ SPOTIFY_MAX_NEXT_TRACKS_SIZE
  ownUids : ∀ t ∈ stock s, t.isDelimiter = false
  unmarked : Unmarked uri s

variable {s : ConnectState} {uri : String}

theorem skipLoop_none (s : ConnectState) (calls : Nat) :
    (skipLoop (calls + 1) s none).isSome = true := by
  rw [skipLoop]
  cases s.nextTrack with
  | mk s' result => cases result <;> rfl

theorem skipLoop_ok {s' : ConnectState} {index : Option Nat} (calls : Nat)
    (result : s.nextTrack = (s', .ok index)) :
    skipLoop (calls + 1) s (some uri) =
      if s'.currentTrack.uri = uri then some (s', .ok index.isSome)
      else skipLoop calls s' (some uri) := by
  rw [skipLoop, result]
  by_cases same : s'.currentTrack.uri = uri <;> simp [same]

variable {t : ProvidedTrack}

/-- A track that can be played is taken, or it moves up in front of what is left. -/
theorem takes_moves_up {front back prevTracks passed rest prevTracks' : List ProvidedTrack}
    {newTrack : Option ProvidedTrack} (plays : playable t = true)
    (takes : Takes (front ++ t :: back) prevTracks newTrack passed rest prevTracks') :
    newTrack = some t ∨
      ∃ front', rest = front' ++ t :: back ∧ front'.length < front.length := by
  have split := takes.split
  have notPassed : t ∉ passed := by
    intro inside
    simp only [playable, Bool.and_eq_true, Bool.not_eq_true'] at plays
    rcases takes.notPlayed t inside with delimiter | unavailable
    · simp [plays.1] at delimiter
    · simp [plays.2] at unavailable
  rw [List.append_assoc] at split
  rcases List.append_eq_append_iff.mp split with ⟨between, same, tail⟩ | ⟨between, same, tail⟩
  · -- what is passed over reaches at least to the track
    cases between with
    | nil =>
      cases newTrack with
      | none =>
        rw [takes.ends rfl] at tail
        cases tail
      | some u =>
        simp only [Option.toList_some, List.nil_append, List.cons_append, List.cons.injEq] at tail
        exact Or.inl (by rw [tail.1])
    | cons u between =>
      simp only [List.cons_append, List.cons.injEq] at tail
      refine absurd ?_ notPassed
      rw [same, tail.1]
      simp
  · cases newTrack with
    | none =>
      rw [takes.ends rfl] at tail
      simp at tail
    | some u =>
      cases between with
      | nil =>
        simp only [Option.toList_some, List.nil_append, List.cons_append, List.cons.injEq] at tail
        exact Or.inl (by rw [tail.1])
      | cons v between =>
        simp only [Option.toList_some, List.cons_append, List.nil_append, List.cons.injEq] at tail
        refine Or.inr ⟨between, tail.2, ?_⟩
        rw [same, List.length_append, List.length_cons]
        omega

theorem skipLoop_ends (calls : Nat) (s : ConnectState) {front back : List ProvidedTrack}
    (next : s.player.nextTracks = front ++ t :: back) (plays : playable t = true)
    (enough : front.length < calls) : (skipLoop calls s (some t.uri)).isSome = true := by
  induction calls generalizing s front back with
  | zero => omega
  | succ calls ih =>
    obtain ⟨newTrack, passed, rest, added, moves⟩ := nextTrack_spec s
    have takes := moves.takes
    rw [next] at takes
    generalize result : s.nextTrack = reply at moves takes
    obtain ⟨s', outcome⟩ := reply
    cases outcome with
    | error e =>
      rw [skipLoop, result]
      rfl
    | ok index =>
      have played : s'.player.track = newTrack := by
        rcases moves.track with played | ⟨-, -, e, fails⟩
        · exact played
        · cases fails
      rw [skipLoop_ok calls result]
      split
      · rfl
      · rename_i other
        rcases takes_moves_up plays takes with rfl | ⟨front', ahead, shorter⟩
        · simp [currentTrack, played] at other
        · have next' : s'.player.nextTracks = front' ++ t :: (back ++ added) := by
            rw [moves.next, ahead, List.append_assoc, List.cons_append]
          exact ih s' next' (by omega)

theorem skipLoop_named (inside : t ∈ s.player.nextTracks) (plays : playable t = true) :
    (skipLoop (s.player.nextTracks.length + 1) s (some t.uri)).isSome = true := by
  obtain ⟨front, back, next⟩ := List.append_of_mem inside
  apply skipLoop_ends _ s next plays
  rw [next, List.length_append]
  omega

section Call

theorem playable_iff : playable t = true ↔ t.isDelimiter = false ∧ t.isUnavailable = false := by
  simp [playable]

/-- A call takes the first track that can be played, and fills up where the contexts are as
they were. -/
structure Call (s f : ConnectState) (newTrack : Option ProvidedTrack)
    (passed : List ProvidedTrack) : Prop where
  split : s.player.nextTracks = passed ++ newTrack.toList ++ f.player.nextTracks
  passed : ∀ t ∈ passed, playable t = false
  plays : ∀ t ∈ newTrack, playable t = true
  ends : newTrack = none → f.player.nextTracks = []
  source : SameSource s f
  upNext_eq : upNext f = upNext s
  empty : f.player.track = none
  result : s.nextTrack = playTaken newTrack f

theorem nextTrack_call (s : ConnectState) : ∃ f newTrack passed, Call s f newTrack passed := by
  obtain ⟨s₁, newTrack, passed, rest, prevTracks, same, takes, result⟩ := nextTrack_takes s
  refine ⟨placed s₁ none prevTracks rest, newTrack, passed, takes.split, ?_, ?_, takes.ends,
    sameSource_of_sameWindow same .., ?_, rfl, result⟩
  · intro t inside
    rcases takes.notPlayed t inside with delimiter | unavailable
    · simp [playable, delimiter]
    · simp [playable, unavailable]
  · exact fun t taken => playable_iff.mpr (takes.playable t taken)
  · exact upNext_sameSource (sameSource_of_sameWindow same ..) same.active_eq

variable {f : ConnectState} {newTrack : Option ProvidedTrack} {passed : List ProvidedTrack}

theorem call_takes (call : Call s f newTrack passed)
    (plays : ∃ t ∈ s.player.nextTracks, playable t = true) : ∃ x, newTrack = some x := by
  cases newTrack with
  | some x => exact ⟨x, rfl⟩
  | none =>
    obtain ⟨t, inside, plays⟩ := plays
    rw [call.split, call.ends rfl, Option.toList_none, List.append_nil, List.append_nil] at inside
    rw [call.passed t inside] at plays
    cases plays

theorem call_fills {x : ProvidedTrack} {g : ConnectState} (call : Call s f (some x) passed)
    (filled : f.fillUpNextTracks = (g, .ok ())) :
    ∃ s' index, s.nextTrack = (s', .ok index) ∧ s'.player.track = some x ∧
      s'.player.nextTracks = g.player.nextTracks ∧ SameSource g s' := by
  have deck := startTrack_deck g x
  refine ⟨_, some (g.startTrack x).1.currentIndex, ?_, deck.track_eq, deck.next_eq,
    sameSource_startTrack g x⟩
  rw [call.result, playTaken, filled]
  rfl

theorem offered_playable (ownUids : ∀ t ∈ stock s, t.isDelimiter = false)
    (inside : t ∈ offered (stock s)) : playable t = true := by
  obtain ⟨member, available⟩ := mem_offered.mp inside
  exact playable_iff.mpr ⟨ownUids t member, available⟩

end Call

section Reaches

variable {f g : ConnectState} {x : ProvidedTrack} {passed added : List ProvidedTrack} {d : Nat}

section

variable (regular : Regular uri s) (call : Call s f (some x) passed)
  (near : Approaches uri f d added g)
include regular call near

theorem approaches_length : passed.length + 1 + f.player.nextTracks.length =
      s.player.nextTracks.length ∧
    f.player.nextTracks.length + added.length = SPOTIFY_MAX_NEXT_TRACKS_SIZE ∧
    0 < added.length := by
  have room := near.length
  have few := regular.few
  have split := congrArg List.length call.split
  simp only [List.length_append, Option.toList_some, List.length_singleton] at split
  omega

/-- Of what is filled in at most one track cannot be played, and that is not all there is room
for unless the next tracks run dry. -/
theorem approaches_playable (wet : ¬ RunsDry s) :
    ∃ t ∈ f.player.nextTracks ++ added, playable t = true := by
  have stocked := stock_sameSource call.source
  have plays : ∀ t ∈ offered (stock f), playable t = true :=
    fun t inside => offered_playable regular.ownUids (stocked ▸ inside)
  obtain ⟨taken, full, fills⟩ := approaches_length regular call near
  by_contra silent
  have mute : ∀ t ∈ f.player.nextTracks ++ added, playable t = false := by simpa using silent
  have notOffered : ∀ t ∈ added, t ∉ offered (stock f) := by
    intro t inside offer
    have played := plays t offer
    rw [mute t (List.mem_append_right _ inside)] at played
    cases played
  rcases near.once with all | ⟨-, front, delimiter, back, rfl, rest⟩
  · obtain ⟨t, inside⟩ := List.exists_mem_of_length_pos fills
    exact notOffered t inside (all t inside)
  · have alone : front ++ back = [] := by
      rw [List.eq_nil_iff_forall_not_mem]
      intro t inside
      refine notOffered t ?_ (rest t inside)
      rcases List.mem_append.mp inside with inside | inside <;> simp [inside]
    obtain ⟨rfl, rfl⟩ := List.append_eq_nil_iff.mp alone
    simp only [List.nil_append, List.length_singleton] at full
    have few := regular.few
    have first : passed = [] := List.length_eq_zero_iff.mp (by omega)
    refine wet ⟨by omega, fun t inside => mute t (List.mem_append_left _ ?_), ?_⟩
    · simpa [call.split, first] using inside
    · obtain ⟨more, begins⟩ := near.begins
      rw [← call.upNext_eq]
      cases next : upNext f with
      | nil => rfl
      | cons t later =>
        have offer : t ∈ offered (stock f) := mem_upNext (by simp [next])
        rw [next] at begins
        obtain ⟨rfl, -⟩ := List.cons.inj begins
        exact absurd offer (notOffered _ (by simp))

theorem approaches_wet {s' : ConnectState} (unmarked : Unmarked uri s')
    (next : s'.player.nextTracks = f.player.nextTracks ++ added) (source : SameSource g s') :
    ¬ RunsDry s' := by
  rintro ⟨length, silent, nothing⟩
  obtain ⟨-, full, fills⟩ := approaches_length regular call near
  rcases near.once with all | ⟨soon, -⟩
  · obtain ⟨t, inside, later⟩ : ∃ t ∈ added, t ∈ s'.player.nextTracks.drop 1 := by
      rw [next]
      cases rest : f.player.nextTracks with
      | nil =>
        rw [rest, List.length_nil, Nat.zero_add] at full
        have many : 0 < (added.drop 1).length := by
          rw [List.length_drop, full]
          decide
        obtain ⟨t, inside⟩ := List.exists_mem_of_length_pos many
        exact ⟨t, List.mem_of_mem_drop inside, inside⟩
      | cons y rest =>
        obtain ⟨t, inside⟩ := List.exists_mem_of_length_pos fills
        exact ⟨t, inside, List.mem_append_right _ inside⟩
    have plays := offered_playable (by rw [stock_sameSource call.source]; exact regular.ownUids)
      (all t inside)
    rw [silent t later] at plays
    cases plays
  · exact upNext_ne_nil unmarked (soon_sameSource source soon) nothing

end

theorem skipLoop_reaches (regular : Regular uri s) (coming : Coming uri s d)
    (plays : ∃ t ∈ s.player.nextTracks, playable t = true) (wet : ¬ RunsDry s) :
    ∃ calls, (skipLoop calls s (some uri)).isSome = true := by
  induction d using Nat.strong_induction_on generalizing s with
  | _ d ih =>
    obtain ⟨f, newTrack, passed, call⟩ := nextTrack_call s
    obtain ⟨x, rfl⟩ := call_takes call plays
    have stocked := stock_sameSource call.source
    obtain ⟨added, fillUp, i, j, filled, drawn, brought⟩ := fillUp_approaches
      (unmarked_sameSource call.source regular.unmarked) (coming_sameSource call.source coming)
    obtain ⟨s', index, result, track, next, source⟩ := call_fills call filled
    have next' : s'.player.nextTracks = f.player.nextTracks ++ added := next
    suffices ∃ calls, (skipLoop calls s' (some uri)).isSome = true by
      obtain ⟨calls, ended⟩ := this
      refine ⟨calls + 1, ?_⟩
      rw [skipLoop_ok calls result]
      split
      · rfl
      · exact ended
    rcases brought with ⟨t, inside, want⟩ | near
    · obtain ⟨rfl, available⟩ : t.uri = uri ∧ t.isUnavailable = false := by
        simpa [wanted] using want
      have member : t ∈ s'.player.nextTracks := by simp [next', inside]
      refine ⟨_, skipLoop_named member (playable_iff.mpr ⟨?_, available⟩)⟩
      rcases drawn t inside with ⟨iteration, rfl⟩ | ⟨member, -⟩
      · exact absurd rfl regular.named
      · exact regular.ownUids t (stocked ▸ member)
    · obtain ⟨d', coming', closer⟩ := near.coming
      obtain ⟨-, full, fills⟩ := approaches_length regular call near
      have unmarked : Unmarked uri s' := unmarked_sameSource source (unmarked_refilled
        (unmarked_sameSource call.source regular.unmarked) _ _ _ _)
      refine ih d' (by omega) ⟨regular.named, ?_, ?_, unmarked⟩
        (coming_sameSource source coming') ?_ ?_
      · rw [next', List.length_append, full]
      · rw [stock_sameSource source, stock_refilled, stocked]
        exact regular.ownUids
      · rw [next']
        exact approaches_playable regular call near wet
      · exact approaches_wet regular call near unmarked next' source

end Reaches

section Endless

variable (named : uri ≠ "")
include named

/-- Without a next track that can be played the loop goes on with an empty current track. -/
theorem skipLoop_silent (calls : Nat) (silent : ∀ t ∈ s.player.nextTracks, playable t = false) :
    skipLoop calls s (some uri) = none := by
  induction calls generalizing s with
  | zero => rfl
  | succ calls ih =>
    obtain ⟨f, newTrack, passed, call⟩ := nextTrack_call s
    cases newTrack with
    | some x =>
      have plays := call.plays x rfl
      rw [silent x (by simp [call.split])] at plays
      cases plays
    | none =>
      have empty : f.currentTrack.uri = "" := by rw [currentTrack, call.empty]; rfl
      rw [skipLoop_ok calls call.result, if_neg (by rw [empty]; exact named.symm)]
      exact ih (by simp [call.ends rfl])

/-- A call takes a track with another uri, and the loop goes on. -/
theorem skipLoop_call {f : ConnectState} {newTrack : Option ProvidedTrack}
    {passed : List ProvidedTrack} (call : Call s f newTrack passed) (loaded : Loaded f)
    (other : ∀ t ∈ s.player.nextTracks, playable t = true → t.uri ≠ uri) (calls : Nat)
    (later : ∀ x s', newTrack = some x →
      s'.player.nextTracks = f.fillUpNextTracks.1.player.nextTracks →
      SameSource f.fillUpNextTracks.1 s' → skipLoop calls s' (some uri) = none) :
    skipLoop (calls + 1) s (some uri) = none := by
  cases newTrack with
  | none =>
    have empty : f.currentTrack.uri = "" := by rw [currentTrack, call.empty]; rfl
    rw [skipLoop_ok calls call.result, if_neg (by rw [empty]; exact named.symm)]
    exact skipLoop_silent named calls (by simp [call.ends rfl])
  | some x =>
    obtain ⟨s', index, result, track, next, source⟩ := call_fills call (fillUp_done loaded)
    have played : s'.currentTrack.uri = x.uri := by rw [currentTrack, track]; rfl
    rw [skipLoop_ok calls result, if_neg ?_]
    · exact later x s' rfl next source
    · rw [played]
      exact other x (by simp [call.split]) (call.plays x rfl)

theorem skipLoop_hopeless (calls : Nat) (loaded : Loaded s)
    (other : ∀ t ∈ s.player.nextTracks, playable t = true → t.uri ≠ uri)
    (never : ∀ t ∈ refills s, t.uri ≠ uri) : skipLoop calls s (some uri) = none := by
  induction calls generalizing s with
  | zero => rfl
  | succ calls ih =>
    obtain ⟨f, newTrack, passed, call⟩ := nextTrack_call s
    have loaded' : Loaded f := by rwa [Loaded, loaded_sameSource call.source]
    apply skipLoop_call named call loaded' other
    rintro x s' rfl next source
    obtain ⟨added, fillUp, i, j, filled, within, fewer⟩ := fillUp_refills f
    rw [refills_sameSource call.source] at within fewer
    apply ih
    · rw [Loaded, loaded_sameSource source]
      exact fillUp_loaded loaded'
    · intro t inside plays
      rw [next, filled] at inside
      rcases List.mem_append.mp inside with old | new
      · exact other t (by simp [call.split, old]) plays
      · rcases within t new with comes | ⟨i, rfl⟩
        · exact never t comes
        · simp [playable, newDelimiter_isDelimiter] at plays
    · rw [refills_sameSource source]
      exact fun t inside => never t (fewer inside)

theorem skipLoop_dry (calls : Nat) (loaded : Loaded s) (dry : RunsDry s)
    (other : ∀ t ∈ s.player.nextTracks, playable t = true → t.uri ≠ uri) :
    skipLoop calls s (some uri) = none := by
  obtain ⟨full, silent, nothing⟩ := dry
  cases calls with
  | zero => rfl
  | succ calls =>
    obtain ⟨f, newTrack, passed, call⟩ := nextTrack_call s
    obtain ⟨ctx, loaded'⟩ : Loaded f := by rwa [Loaded, loaded_sameSource call.source]
    apply skipLoop_call named call ⟨ctx, loaded'⟩ other
    rintro x s' rfl next -
    have first : passed = [] := by
      cases passed with
      | nil => rfl
      | cons t passed =>
        have plays := call.plays x rfl
        rw [silent x (by simp [call.split])] at plays
        cases plays
    have split := call.split
    simp only [first, Option.toList_some, List.nil_append, List.singleton_append] at split
    obtain ⟨added, _, ctx', c', -, ⟨fillUp, i, j, filled⟩, -, feeds⟩ := fillUp_feeds loaded'
    have few : SPOTIFY_MAX_NEXT_TRACKS_SIZE - f.player.nextTracks.length ≤ 1 := by
      rw [split, List.length_cons] at full
      omega
    have ended : ahead f ctx.tracks.vec ⟨ctx.index.track, ctx.index.page⟩ = [] := by
      rw [← call.upNext_eq, upNext, loaded'] at nothing
      exact nothing
    apply skipLoop_silent named
    intro t inside
    rw [next, filled] at inside
    rcases List.mem_append.mp inside with old | new
    · exact silent t (by simp [split, old])
    · obtain ⟨i, rfl⟩ := feeds_end feeds few ended t new
      simp [playable, newDelimiter_isDelimiter]

theorem skipLoop_endless (calls : Nat) (lost : ¬ Reaches uri s) :
    skipLoop calls s (some uri) = none := by
  simp only [Reaches, not_or, not_and, not_exists] at lost
  obtain ⟨-, other, closed⟩ := lost
  by_cases plays : ∃ t ∈ s.player.nextTracks, playable t = true
  · have other' : ∀ t ∈ s.player.nextTracks, playable t = true → t.uri ≠ uri :=
      fun t inside plays same => other t inside same plays
    obtain ⟨loaded, dry⟩ := closed plays
    have loaded : Loaded s := not_not.mp loaded
    by_cases comes : ∃ t ∈ refills s, t.uri = uri
    · exact skipLoop_dry named calls loaded (not_not.mp (dry comes)) other'
    · exact skipLoop_hopeless named calls loaded other' fun t inside same => comes ⟨t, inside, same⟩
  · exact skipLoop_silent named calls (by simpa using plays)

end Endless

theorem skipLoop_fails (plays : ∃ t ∈ s.player.nextTracks, playable t = true)
    (missing : ¬ Loaded s) : (skipLoop 1 s (some uri)).isSome = true := by
  obtain ⟨f, newTrack, passed, call⟩ := nextTrack_call s
  obtain ⟨x, rfl⟩ := call_takes call plays
  have missing' : ¬ Loaded f := by rwa [Loaded, loaded_sameSource call.source]
  obtain ⟨e, fails⟩ := fillUp_missing missing'
  rw [skipLoop, call.result, playTaken, fails]
  rfl

def Ends (s : ConnectState) (trackUri : Option String) : Prop :=
  ∃ calls, (handleNext calls s trackUri).isSome = true

theorem handleNext_other {trackUri : Option String} (other : trackUri ≠ some s.currentTrack.uri)
    (calls : Nat) : handleNext calls s trackUri = skipLoop calls s trackUri :=
  if_neg other

theorem ends_of_reaches (regular : Regular uri s) (reaches : Reaches uri s) :
    Ends s (some uri) := by
  by_cases current : some uri = some s.currentTrack.uri
  · exact ⟨0, by rw [handleNext, if_pos current]; rfl⟩
  · simp only [Ends, handleNext_other current]
    rcases reaches with same | ⟨t, inside, rfl, plays⟩ | ⟨plays, missing | ⟨comes, wet⟩⟩
    · exact absurd (congrArg some same) current
    · exact ⟨_, skipLoop_named inside plays⟩
    · exact ⟨1, skipLoop_fails plays missing⟩
    · obtain ⟨d, coming⟩ := coming_of_refills comes
      exact skipLoop_reaches regular coming plays wet

theorem reaches_of_ends (named : uri ≠ "") (ends : Ends s (some uri)) : Reaches uri s := by
  by_contra lost
  obtain ⟨calls, ended⟩ := ends
  have other : some uri ≠ some s.currentTrack.uri := fun same => lost (.inl (Option.some.inj same))
  rw [handleNext_other other, skipLoop_endless named calls lost] at ended
  cases ended

end SkipNext
