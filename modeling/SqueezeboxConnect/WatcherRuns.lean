import SqueezeboxConnect.Watcher

/-!
# What the watcher makes of the files

The first part compares the local playback with the samples the watcher got.
The second part puts the watcher next to the helper, whose plain writes it may
catch half done, and compares it with a watcher that only sees whole files.
-/

namespace WatcherRuns

open Runs BridgeLoop PlayerThread Metadata Watcher Applet Words

def isStart : Call → Bool
  | .start _ => true
  | _ => false

def isResume : Call → Bool
  | .resume _ => true
  | _ => false

def newCalls (a a' : Applet) : List Call := a'.calls.drop a.calls.length

/-- What a part of a tick adds to the history: whether it resumes, and how often it starts. -/
def Calls (a a' : Applet) (resumes : Bool) (starts : Nat) : Prop :=
  ∃ more, a'.calls = a.calls ++ more ∧ more.any isResume = resumes ∧ more.countP isStart = starts

theorem calls_trans {a b c : Applet} {resumes : Bool} {m n : Nat} (first : Calls a b resumes m)
    (second : Calls b c false n) : Calls a c resumes (m + n) := by
  obtain ⟨more, calls, resume, start⟩ := first
  obtain ⟨more', calls', resume', start'⟩ := second
  refine ⟨more ++ more', ?_, ?_, ?_⟩
  · rw [calls', calls, List.append_assoc]
  · rw [List.any_append, resume, resume', Bool.or_false]
  · rw [List.countP_append, start, start']

/-- Playback is started once more because it could not be resumed. -/
def restarts (a : Applet) (players : Players) (d : Sample) : Bool :=
  a.resumes d && !(a.playback.resume players).2

variable (a : Applet) (players : Players) (d : Sample)

theorem resumes_playing {a : Applet} {d : Sample} (resumes : a.resumes d = true) :
    d.playbackState = some playingText ∧ a.lastPlaybackState = some pausedText := by
  simp only [Applet.resumes, Bool.and_eq_true, beq_iff_eq] at resumes
  exact resumes.1

theorem resumes_eq_false {a : Applet} {d : Sample}
    (other : d.playbackState ≠ some playingText ∨ a.lastPlaybackState ≠ some pausedText) :
    a.resumes d = false := by
  by_contra resumes
  obtain ⟨playing, paused⟩ := resumes_playing (by simpa using resumes)
  rcases other with other | other
  · exact other playing
  · exact other paused

theorem react_calls :
    Calls a (a.react players d) (a.resumes d) (restarts a players d).toNat := by
  rw [react, restarts]
  by_cases paused : d.playbackState = some pausedText
  · have other : a.resumes d = false := resumes_eq_false (Or.inl (by rw [paused]; decide))
    rw [if_pos paused, other]
    exact ⟨[_], rfl, rfl, rfl⟩
  · by_cases stopped : d.playbackState = some stoppedText
    · have other : a.resumes d = false := resumes_eq_false (Or.inl (by rw [stopped]; decide))
      rw [if_neg paused, if_pos stopped, other]
      exact ⟨[_], rfl, rfl, rfl⟩
    · rw [if_neg paused, if_neg stopped]
      cases a.resumes d with
      | false => exact ⟨[], by simp, rfl, rfl⟩
      | true =>
        simp only [if_true, callResume, Bool.true_and]
        cases (a.playback.resume players).2 with
        | true => exact ⟨[.resume true], rfl, rfl, rfl⟩
        | false =>
          exact ⟨[.resume false, .start ((a.playback.resume players).1.start players).2],
            by simp [callStart], rfl, rfl⟩

theorem resumes_changed {a : Applet} {d : Sample} (resumes : a.resumes d = true) :
    (d.playbackState.isSome && d.playbackState != a.lastPlaybackState) = true := by
  obtain ⟨playing, paused⟩ := resumes_playing resumes
  rw [playing, paused]
  decide

theorem followState_calls :
    Calls a (a.followState players d) (a.resumes d) (restarts a players d).toNat := by
  rw [followState]
  split
  · exact react_calls a players d
  · rename_i same
    have nothing : a.resumes d = false := by
      by_contra resumes
      exact same (resumes_changed (by simpa using resumes))
    rw [restarts, nothing]
    exact ⟨[], by simp, rfl, rfl⟩

theorem followStream_calls (streamChanged : Bool) :
    Calls a (a.followStream players streamChanged) false streamChanged.toNat := by
  cases streamChanged with
  | false => exact ⟨[], by simp [followStream], rfl, rfl⟩
  | true => exact ⟨[_], rfl, rfl, rfl⟩

/-- The fields of the memory that the calls leave alone. -/
structure SameMemory (a a' : Applet) : Prop where
  lastPlaybackState : a'.lastPlaybackState = a.lastPlaybackState
  lastStreamMarker : a'.lastStreamMarker = a.lastStreamMarker

theorem followState_memory : SameMemory a (a.followState players d) := by
  simp only [followState, react, callResume, callStart, callPause, callStop]
  repeat' split
  all_goals exact ⟨rfl, rfl⟩

theorem followStream_memory (streamChanged : Bool) :
    SameMemory a (a.followStream players streamChanged) := by
  cases streamChanged <;> exact ⟨rfl, rfl⟩

/-- What the volume leaves alone. -/
structure SameButVolume (a a' : Applet) : Prop extends SameMemory a a' where
  calls : a'.calls = a.calls
  held : a'.playback.playback = a.playback.playback
  paused : a'.playback.paused = a.playback.paused

theorem followVolume_frame : SameButVolume a (a.followVolume players d) := by
  rw [followVolume]
  split
  · exact ⟨⟨rfl, rfl⟩, rfl, rfl, rfl⟩
  · split <;> exact ⟨⟨rfl, rfl⟩, rfl, rfl, rfl⟩

/-- The local playback behind the look at the stream marker. -/
def followed (a : Applet) (players : Players) (d : Sample) : SpotifyPlayback :=
  ((a.followState players d).followStream players (a.streamChanged d)).playback

/-- What a tick does to the calls, the memory and the local playback. -/
structure Ticks (a a' : Applet) (players : Players) (d : Sample) : Prop where
  calls : Calls a a' (a.resumes d) ((restarts a players d).toNat + (a.streamChanged d).toNat)
  lastPlaybackState : a'.lastPlaybackState = d.playbackState.or a.lastPlaybackState
  lastStreamMarker : a'.lastStreamMarker = d.stream.or a.lastStreamMarker
  held : a'.playback.playback = (followed a players d).playback
  paused : a'.playback.paused = (followed a players d).paused

theorem watch_spec : Ticks a (a.watch players d) players d := by
  have reaction := followState_calls a players d
  have memory := followState_memory a players d
  have started := followStream_calls (a.followState players d) players (a.streamChanged d)
  have memory' := followStream_memory (a.followState players d) players (a.streamChanged d)
  have volume := followVolume_frame
    (((a.followState players d).followStream players (a.streamChanged d)).remember d) players d
  constructor
  · obtain ⟨more, calls, counts⟩ := calls_trans reaction started
    exact ⟨more, volume.calls.trans calls, counts⟩
  · rw [← memory.lastPlaybackState, ← memory'.lastPlaybackState]
    exact volume.lastPlaybackState
  · rw [← memory.lastStreamMarker, ← memory'.lastStreamMarker]
    exact volume.lastStreamMarker
  · exact volume.held
  · exact volume.paused

section Agreement

def isStopped (a : Applet) : Prop := a.playback.playback = none

/-- What one tick has to do with its sample: the playback is no further on than the
remote one, and a start belongs to a new stream. -/
def AgreesAt (players : Players) (a : Applet) (d : Sample) : Prop :=
  (d.playbackState = some pausedText →
    isStopped (a.watch players d) ∨ (a.watch players d).playback.paused = true) ∧
  (d.playbackState = some stoppedText → isStopped (a.watch players d)) ∧
  (newCalls a (a.watch players d)).countP isStart = if a.streamChanged d then 1 else 0

/-- The watcher agrees with every sample of a run. -/
def Agrees (players : Players) (samples : List Sample) : Prop :=
  Along (fun a d => a.watch players d) (AgreesAt players) .init samples

/-- The state the applet believes the remote playback to be in after a sample. -/
def believed (a : Applet) (d : Sample) : Option Text := d.playbackState.or a.lastPlaybackState

/-- A new stream comes while the remote playback is not paused or stopped, and what
is resumed is paused and still has its stream. -/
def Expected (a : Applet) (d : Sample) : Prop :=
  (a.streamChanged d = true → believed a d ≠ some pausedText ∧ believed a d ≠ some stoppedText) ∧
  (a.resumes d = true →
    a.playback.playback.isSome = true ∧ a.playback.paused = true ∧ a.playback.stream = true)

instance (a : Applet) (d : Sample) : Decidable (Expected a d) :=
  inferInstanceAs (Decidable (_ ∧ _))

/-- What holds between two ticks, with the playback object of the local player. -/
structure InStep (object : Nat) (a : Applet) : Prop where
  held : a.playback.playback = none ∨ a.playback.playback = some object
  paused : a.lastPlaybackState = some pausedText → isStopped a ∨ a.playback.paused = true
  stopped : a.lastPlaybackState = some stoppedText → isStopped a

variable {a players d} {object : Nat}

section

variable (present : players.localPlayer = some ⟨some object⟩)
include present

theorem drives_object {p : SpotifyPlayback} (held : p.playback = some object) :
    p.drives players = true := by
  simp [SpotifyPlayback.drives, present, held]

theorem pause_object (p : SpotifyPlayback) (held : p.playback = none ∨ p.playback = some object) :
    (p.pause players).1.playback = p.playback ∧
      (p.playback = none ∨ (p.pause players).1.paused = true) := by
  rcases held with nothing | object
  · simp [SpotifyPlayback.pause, nothing]
  · simp [SpotifyPlayback.pause, drives_object present object, object]

theorem start_object (p : SpotifyPlayback) : (p.start players).1.playback = some object := by
  simp only [SpotifyPlayback.start, present, Option.some_or]
  cases p.remoteVolume <;> simp [SpotifyPlayback.setRemoteVolume]

end

theorem resume_held (p : SpotifyPlayback) : (p.resume players).1.playback = p.playback := by
  rw [SpotifyPlayback.resume]
  split <;> rfl

theorem believed_changed (changed : d.playbackState.isSome = true) :
    believed a d = d.playbackState := by
  cases state : d.playbackState with
  | none => simp [state] at changed
  | some text => simp [believed, state]

theorem believed_same
    (same : ¬ (d.playbackState.isSome && d.playbackState != a.lastPlaybackState) = true) :
    believed a d = a.lastPlaybackState := by
  cases state : d.playbackState with
  | none => simp [believed, state]
  | some text => simpa [believed, state] using same

/-- Behind the reaction the local playback is where the remote one is believed to be. -/
theorem followState_inStep (present : players.localPlayer = some ⟨some object⟩)
    (h : InStep object a) :
    InStep object { a.followState players d with lastPlaybackState := believed a d } := by
  by_cases changed : (d.playbackState.isSome && d.playbackState != a.lastPlaybackState) = true
  · have state := believed_changed (a := a) (Bool.and_eq_true_iff.mp changed).1
    rw [followState, if_pos changed, react, state]
    by_cases paused : d.playbackState = some pausedText
    · obtain ⟨held, quiet⟩ := pause_object present a.playback h.held
      rw [if_pos paused, paused]
      constructor
      · exact held ▸ h.held
      · intro _
        exact quiet.imp_left held.trans
      · intro stopped
        exact absurd (show some pausedText = some stoppedText from stopped) (by decide)
    · rw [if_neg paused]
      by_cases stopped : d.playbackState = some stoppedText
      · rw [if_pos stopped]
        exact ⟨Or.inl rfl, fun _ => Or.inl rfl, fun _ => rfl⟩
      · rw [if_neg stopped]
        refine ⟨?_, fun believed => absurd believed paused, fun believed => absurd believed stopped⟩
        by_cases resumes : a.resumes d = true
        · simp only [resumes, if_true, callResume]
          cases (a.playback.resume players).2 with
          | true => exact (resume_held a.playback).symm ▸ h.held
          | false => exact Or.inr (start_object present _)
        · simp only [resumes]
          exact h.held
  · rw [followState, if_neg changed, believed_same changed]
    exact ⟨h.held, h.paused, h.stopped⟩

/-- Under the condition a tick keeps in step and agrees with its sample. -/
theorem watch_inStep (present : players.localPlayer = some ⟨some object⟩)
    (h : InStep object a) (expected : Expected a d) :
    InStep object (a.watch players d) ∧ AgreesAt players a d := by
  obtain ⟨inTime, resumable⟩ := expected
  have tick := watch_spec a players d
  have reaction := followState_inStep (d := d) present h
  have after : InStep object (a.watch players d) := by
    cases changed : a.streamChanged d with
    | true =>
      have ⟨notPaused, notStopped⟩ := inTime changed
      have held : (a.watch players d).playback.playback = some object := by
        rw [tick.held, followed, changed]
        exact start_object present _
      refine ⟨Or.inr held, ?_, ?_⟩
      · rw [tick.lastPlaybackState]
        exact fun paused => absurd paused notPaused
      · rw [tick.lastPlaybackState]
        exact fun stopped => absurd stopped notStopped
    | false =>
      have same : followed a players d = (a.followState players d).playback := by
        rw [followed, changed]
        rfl
      have held := tick.held
      have paused := tick.paused
      rw [same] at held paused
      constructor
      · rw [held]
        exact reaction.held
      · rw [tick.lastPlaybackState, isStopped, held, paused]
        exact reaction.paused
      · rw [tick.lastPlaybackState, isStopped, held]
        exact reaction.stopped
  refine ⟨after, ?_, ?_, ?_⟩
  · intro paused
    exact after.paused (by rw [tick.lastPlaybackState, paused]; rfl)
  · intro stopped
    exact after.stopped (by rw [tick.lastPlaybackState, stopped]; rfl)
  · obtain ⟨more, calls, -, starts⟩ := tick.calls
    have resumed : restarts a players d = false := by
      cases resumes : a.resumes d with
      | false => simp [restarts, resumes]
      | true =>
        obtain ⟨filled, paused, stream⟩ := resumable resumes
        have held : a.playback.playback = .some object := by
          rcases h.held with nothing | held
          · rw [nothing] at filled
            cases filled
          · exact held
        simp [restarts, resumes, SpotifyPlayback.resume, held, paused, stream,
          drives_object present held]
    rw [newCalls, calls, List.drop_left, starts, resumed]
    cases a.streamChanged d <;> rfl

/-- With a local player and expected samples the watcher agrees with the remote state. -/
theorem agrees_of_expected (players : Players) (object : Nat)
    (present : players.localPlayer = some ⟨some object⟩) (samples : List Sample)
    (expected : Along (fun a d => a.watch players d) Expected .init samples) :
    Agrees players samples := by
  have start : InStep object .init :=
    ⟨Or.inl rfl, fun _ => Or.inl rfl, fun _ => rfl⟩
  exact along_of_invariant (fun _ _ h good => (watch_inStep present h good).1)
    (fun _ _ h good => (watch_inStep present h good).2) start expected

def ownPlayer : Players := ⟨some ⟨some 0⟩, none⟩

def sample (stream playbackState : String) : Sample :=
  ⟨none, some stream.toList, some playbackState.toList, none⟩

/-- A track is played, paused and played again. -/
theorem pausedTrack_agrees :
    Agrees ownPlayer [sample "1:1" "playing", sample "1:1" "paused", sample "1:1" "playing"] := by
  refine agrees_of_expected ownPlayer 0 rfl _ ⟨?_, ?_, ?_, trivial⟩ <;> decide

/-- A stream that becomes ready while the remote playback is paused or stopped is started
all the same, and what cannot be resumed is started without a new stream. -/
theorem readyStream_disagrees :
    ¬ Agrees ownPlayer [sample "1:1" "paused"] ∧ ¬ Agrees ownPlayer [sample "1:1" "stopped"] ∧
    ¬ Agrees ownPlayer [⟨none, none, some pausedText, none⟩,
      ⟨none, none, some playingText, none⟩] := by
  refine ⟨?_, ?_, ?_⟩
  · rintro ⟨⟨paused, -, -⟩, -⟩
    exact absurd (paused rfl) (by simp only [isStopped]; decide)
  · rintro ⟨⟨-, stopped, -⟩, -⟩
    exact absurd (stopped rfl) (by simp only [isStopped]; decide)
  · rintro ⟨-, ⟨-, -, starts⟩, -⟩
    exact absurd starts (by decide)

end Agreement

section HalfWritten

variable {Uri : Type} (catalogue : Catalogue Uri)

/-- The operations of the helper for a sequence of player events. -/
def helperOps (events : List (PlayerEvent Uri)) : List FileOp :=
  (events.filterMap (handleEvent catalogue)).flatMap main

/-- A file as it was when its last write was complete. -/
def settle (settled : Files) : FileOp → Files
  | .truncate _ => settled
  | op => op.apply settled

/-- The helper and two watchers: one reads the files as they are, the other one
whole files only. -/
structure Room where
  todo : List FileOp
  files : Files
  settled : Files
  applet : Applet
  ideal : Applet

/-- The helper does its next operation, or the watcher reads, with the stream
marker and the players as they are at the moment. -/
inductive Act where
  | write
  | read (streamMarker : Option Text) (players : Players)

def Room.step (r : Room) : Act → Room
  | .write =>
    match r.todo with
    | [] => r
    | op :: todo =>
      { r with todo := todo, files := op.apply r.files, settled := settle r.settled op }
  | .read streamMarker players =>
    { r with
      applet := r.applet.watch players (eventData r.files streamMarker)
      ideal := r.ideal.watch players (eventData r.settled streamMarker) }

def Room.start (events : List (PlayerEvent Uri)) : Room :=
  ⟨helperOps catalogue events, noFiles, noFiles, .init, .init⟩

/-- A read makes both watchers resume, or none of them; in particular, what is paused
and then played on the same stream is resumed. -/
def SameResume (r : Room) : Act → Prop
  | .write => True
  | .read streamMarker players =>
    let resumed := (newCalls r.applet (r.step (.read streamMarker players)).applet).any isResume
    resumed = (newCalls r.ideal (r.step (.read streamMarker players)).ideal).any isResume ∧
      (r.ideal.resumes (eventData r.settled streamMarker) = true → resumed = true)

/-- In a run with these events the watcher resumes as if it saw whole files only. -/
def ResumesAlike (events : List (PlayerEvent Uri)) (acts : List Act) : Prop :=
  Along Room.step SameResume (Room.start catalogue events) acts

/-- The file for the playback state is whole when it is read, or neither it nor the
watcher is at `paused`. -/
def Harmless (r : Room) : Act → Prop
  | .write => True
  | .read _ _ => r.files .state = r.settled .state ∨
      readSmall (r.settled .state) ≠ some pausedText ∧ r.applet.lastPlaybackState ≠ some pausedText

/-- The watchers remember the same, or something that makes neither resume. -/
structure Alike (r : Room) : Prop where
  written : r.files .state = r.settled .state ∨ r.files .state = some []
  lastStreamMarker : r.applet.lastStreamMarker = r.ideal.lastStreamMarker
  lastPlaybackState : r.applet.lastPlaybackState = r.ideal.lastPlaybackState ∨
    r.applet.lastPlaybackState ≠ some pausedText ∧ r.ideal.lastPlaybackState ≠ some pausedText

theorem newCalls_resume (a : Applet) (players : Players) (d : Sample) :
    (newCalls a (a.watch players d)).any isResume = a.resumes d := by
  obtain ⟨more, calls, resumes, -⟩ := (watch_spec a players d).calls
  rw [newCalls, calls, List.drop_left, resumes]

theorem write_alike {r : Room} (h : Alike r) : Alike (r.step .write) := by
  simp only [Room.step]
  split
  · exact h
  · rename_i op todo _
    refine ⟨?_, h.lastStreamMarker, h.lastPlaybackState⟩
    cases op with
    | truncate file =>
      by_cases state : file = .state
      · exact Or.inr (by simp [FileOp.apply, state])
      · simpa [FileOp.apply, settle, Function.update_of_ne (Ne.symm state)] using h.written
    | fill file content =>
      by_cases state : file = .state
      · exact Or.inl (by simp [FileOp.apply, settle, state])
      · simpa [FileOp.apply, settle, Function.update_of_ne (Ne.symm state)] using h.written
    | rename file content =>
      by_cases state : file = .state
      · exact Or.inl (by simp [FileOp.apply, settle, state])
      · simpa [FileOp.apply, settle, Function.update_of_ne (Ne.symm state)] using h.written

variable {streamMarker : Option Text}

theorem resumes_alike {r : Room} {players : Players} (h : Alike r)
    (harmless : Harmless r (.read streamMarker players)) :
    r.applet.resumes (eventData r.files streamMarker) =
      r.ideal.resumes (eventData r.settled streamMarker) := by
  rcases h.lastPlaybackState with same | ⟨other, other'⟩
  · rcases harmless with whole | ⟨-, other⟩
    · simp only [resumes, streamChanged, eventData, whole, same, h.lastStreamMarker]
    · rw [resumes_eq_false (Or.inr other), resumes_eq_false (Or.inr (same ▸ other))]
  · rw [resumes_eq_false (Or.inr other), resumes_eq_false (Or.inr other')]

theorem read_alike {r : Room} {players : Players} (h : Alike r)
    (harmless : Harmless r (.read streamMarker players)) :
    Alike (r.step (.read streamMarker players)) := by
  have tick := watch_spec r.applet players (eventData r.files streamMarker)
  have ideal := watch_spec r.ideal players (eventData r.settled streamMarker)
  constructor
  · exact h.written
  · change (r.applet.watch _ _).lastStreamMarker = (r.ideal.watch _ _).lastStreamMarker
    rw [tick.lastStreamMarker, ideal.lastStreamMarker, h.lastStreamMarker]
    rfl
  · change (r.applet.watch _ _).lastPlaybackState = (r.ideal.watch _ _).lastPlaybackState ∨
      (r.applet.watch _ _).lastPlaybackState ≠ _ ∧ (r.ideal.watch _ _).lastPlaybackState ≠ _
    rw [tick.lastPlaybackState, ideal.lastPlaybackState]
    simp only [eventData]
    by_cases whole : r.files .state = r.settled .state
    · rw [whole]
      cases readSmall (r.settled .state) with
      | none => exact h.lastPlaybackState
      | some text => exact Or.inl rfl
    · -- the watcher reads an empty file
      rcases harmless with same | ⟨settled, other⟩
      · exact absurd same whole
      · rcases h.written with same | empty
        · exact absurd same whole
        · have other' : r.ideal.lastPlaybackState ≠ some pausedText := by
            rcases h.lastPlaybackState with same | both
            · exact same ▸ other
            · exact both.2
          rw [empty]
          refine Or.inr ⟨show some [] ≠ some pausedText by decide, ?_⟩
          cases state : readSmall (r.settled .state) with
          | none => exact other'
          | some text =>
            rw [state] at settled
            exact settled

/-- Reads that do not fall into a write of `paused` or behind it are harmless. -/
theorem resumesAlike_of_harmless (events : List (PlayerEvent Uri)) (acts : List Act)
    (harmless : Along Room.step Harmless (Room.start catalogue events) acts) :
    ResumesAlike catalogue events acts := by
  have start : Alike (Room.start catalogue events) := ⟨Or.inl rfl, rfl, Or.inl rfl⟩
  refine along_of_invariant ?_ ?_ start harmless
  · intro r act h good
    cases act with
    | write => exact write_alike h
    | read streamMarker players => exact read_alike h good
  · intro r act h good
    cases act with
    | write => exact trivial
    | read streamMarker players =>
      have same := resumes_alike h good
      have resumed := newCalls_resume r.applet players (eventData r.files streamMarker)
      have ideal := newCalls_resume r.ideal players (eventData r.settled streamMarker)
      refine ⟨?_, ?_⟩
      · exact resumed.trans (same.trans ideal.symm)
      · intro resumes
        exact resumed.trans (same.trans resumes)

def noCatalogue : Catalogue String :=
  ⟨String.toList, fun _ => [], fun _ => [], fun _ => [], fun _ => []⟩

/-- A track is paused and played again. -/
def pausedAndPlayed : List (PlayerEvent String) := [.paused 0 "a" 0, .playing 0 "a" 0]

/-- The watcher reads in the middle of the first write and between the two. -/
theorem betweenWrites_alike :
    ResumesAlike noCatalogue pausedAndPlayed [.write, .read none ownPlayer, .write,
      .read none ownPlayer, .write, .write, .read none ownPlayer] := by
  refine resumesAlike_of_harmless noCatalogue _ _
    ⟨trivial, Or.inr ?_, trivial, Or.inl ?_, trivial, trivial, Or.inl ?_, trivial⟩ <;> decide

def midWrite : List Act :=
  [.write, .write, .read none ownPlayer, .write, .read none ownPlayer, .write, .read none ownPlayer]

/-- The watcher reads the empty file between `paused` and `playing`, and neither resumes
nor starts. -/
theorem midWrite_differs :
    ¬ ResumesAlike noCatalogue pausedAndPlayed midWrite ∧
    ∀ call ∈ (run Room.step (Room.start noCatalogue pausedAndPlayed) midWrite).applet.calls,
      isResume call = false ∧ isStart call = false := by
  constructor
  · rintro ⟨-, -, -, -, -, -, ⟨same, -⟩, -⟩
    revert same
    decide
  · decide

end HalfWritten

end WatcherRuns
