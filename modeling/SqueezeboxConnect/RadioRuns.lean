import SqueezeboxConnect.Runs
import SqueezeboxConnect.RadioSystem

/-!
# Bridge and applet do not wait for each other

The bridge that holds an audio page reads no further, and the applet connects only
for a stream marker it has not seen or when a pause ends. They cannot both wait
while the bridge is going to announce a stream before it holds audio again, or
has announced one that the applet has not seen. Every round of the bridge keeps
that, and a connection the bridge gives up of its own accord leads to it. What
breaks it is a stop in the middle of a stream, behind which the engine plays on,
a connection that fails, and a local playback that cannot be started.
-/

namespace RadioRuns

open Runs AudioDecoder PlayerThread OggPage HeaderTracker BridgeLoop Bridge BridgeMoves ClientStream
  Words
open Metadata Watcher WatcherRuns RadioSystem

/-- The bridge announces a stream before it holds an audio page. -/
def Renews (b : Bridge) : Prop :=
  b.discardUntilBos = true ∨ b.headers.packets < 3 ∨
    b.pending = none ∧ ∀ p ∈ b.queue.head?, p.isBos = true

/-- The bridge has announced a stream, or is going to, that the applet has not seen. -/
def Fresh (seen : Option Text) (b : Bridge) : Prop :=
  Renews b ∨ readSmall (markerText b.streamMarker) ≠ seen

/-- The first page of a stream does not have all three headers. -/
def FirstPageShort (pages : List Page) : Prop :=
  ∀ p ∈ pages, p.isBos = true → headerPackets [p] < 3

/-- There is a playback object that can be started. -/
def hasPlayback (players : Players) : Bool :=
  (players.localPlayer.or players.currentPlayer).any fun player => player.playback.isSome

def served (s : Socket) : Prop := acceptHttp s = .ok () ∧ s.replayFails = none ∧ s.timeoutSet = true

/-- The texts are markers of the generations so far. -/
def Known (generation : Nat) (text : Option Text) : Prop :=
  text = none ∨ ∃ g s, g ≤ generation ∧ text = readSmall (markerText (some (g, s)))

variable {b b' : Bridge} {seen : Option Text} {closed : Option (List Connection)} {link : Link}

section Bridge

variable {pages : List Page} {texts : List (Option Text)} {tick : Tick}

/-- What the rounds of the bridge keep in any case. -/
structure Told (pages : List Page) (texts : List (Option Text)) (b : Bridge) : Prop where
  running : Running pages b
  marker : Known b.generation (readSmall (markerText b.streamMarker))
  texts : ∀ text ∈ texts, Known b.generation text

theorem known_mono {m n : Nat} {text : Option Text} (known : Known m text) (le : m ≤ n) :
    Known n text := by
  rcases known with nothing | ⟨g, s, older, same⟩
  · exact Or.inl nothing
  · exact Or.inr ⟨g, s, older.trans le, same⟩

theorem known_ne {n serial : Nat} {text : Option Text} (known : Known n text) :
    readSmall (markerText (some (n + 1, serial))) ≠ text := by
  rcases known with rfl | ⟨g, s, older, rfl⟩
  · rw [readSmall_marker]
    simp
  · intro same
    have generation := marker_generation same
    omega

/-- The fields that say which stream the bridge is in and whom it serves. -/
structure SameStream (b b' : Bridge) : Prop where
  headers_eq : b'.headers = b.headers
  generation_eq : b'.generation = b.generation
  marker_eq : b'.streamMarker = b.streamMarker
  discards_eq : b'.discardUntilBos = b.discardUntilBos

theorem advance_sameStream (b : Bridge) (p : Page) (c : Connection) (n : Nat) :
    SameStream b (b.advance p c n) := by
  simp only [advance]
  split
  · exact ⟨rfl, rfl, rfl, rfl⟩
  · exact ⟨rfl, rfl, rfl, rfl⟩

variable {marker : Option (Nat × Nat)}

/-- The announcement of a stream, in the words of the generations. -/
theorem announced_known {headers : Headers} {generation : Nat}
    (announced : Announced config b headers generation marker)
    (known : Known b.generation (readSmall (markerText b.streamMarker))) :
    b.generation ≤ generation ∧ Known generation (readSmall (markerText marker)) := by
  rw [Announced] at announced
  split at announced
  · obtain ⟨rfl, rfl⟩ := announced
    refine ⟨Nat.le_succ _, ?_⟩
    cases headers.serial with
    | none => exact known_mono known (Nat.le_succ _)
    | some serial => exact Or.inr ⟨_, serial, Nat.le_refl _, rfl⟩
  · obtain ⟨rfl, rfl⟩ := announced
    exact ⟨Nat.le_refl _, known⟩

theorem move_told (h : Told pages texts b) (move : Move config tick b b') :
    Told pages texts b' := by
  have running := move_running h.running move
  cases move with
  | @kept p rest headers generation marker noPending queue wanted observed announced =>
    obtain ⟨-, sameGeneration, sameMarker⟩ :=
      (keptPage_spec b p rest headers generation marker).stream
    obtain ⟨le, known⟩ := announced_known announced h.marker
    refine ⟨running, ?_, ?_⟩
    · rw [sameGeneration, sameMarker]
      exact known
    · rw [sameGeneration]
      exact fun text inside => known_mono (h.texts text inside) le
  | @wrote p c n =>
    have same := advance_sameStream b p c n
    refine ⟨running, ?_, ?_⟩
    · rw [same.generation_eq, same.marker_eq]
      exact h.marker
    · rw [same.generation_eq]
      exact h.texts
  | discarded | timed | disconnected => exact ⟨running, h.marker, h.texts⟩

theorem accepting_told (h : Told pages texts b) (accepting : Accepting tick b b') :
    Told pages texts b' := by
  have running := accepting_running h.running accepting
  cases accepting <;> exact ⟨running, h.marker, h.texts⟩

theorem checkLoading_told (h : Told pages texts b) (tick : Tick) :
    Told pages texts (b.checkLoading config tick) := by
  have running := checkLoading_running config tick h.running
  rcases checkLoading_cases config tick b with ⟨same, -⟩ | ⟨text, -, -, -, new⟩
  · rw [same]
    exact h
  · rw [new] at running ⊢
    exact ⟨running, h.marker, h.texts⟩

/-- The client is the one there was when the given connections had been closed. -/
def Serving (closed : Option (List Connection)) (b : Bridge) : Prop :=
  ∃ c ∈ closed, serves b c = true

/-- What a round keeps: the connection is served, or the applet can still learn of a
stream. -/
def Covered (closed : Option (List Connection)) (seen : Option Text) (b : Bridge) : Prop :=
  Serving closed b ∨ Fresh seen b

theorem fresh_of_sameStream (same : SameStream b b') (pending : b.pending ≠ none)
    (fresh : Fresh seen b) : Fresh seen b' := by
  rcases fresh with (discards | few | ⟨idle, -⟩) | unseen
  · exact Or.inl (Or.inl (same.discards_eq.trans discards))
  · exact Or.inl (Or.inr (Or.inl (same.headers_eq ▸ few)))
  · exact absurd idle pending
  · exact Or.inr (same.marker_eq ▸ unseen)

/-- A page that is taken leaves the applet something to learn. -/
theorem kept_fresh {p : Page} {rest : List Page} {headers : Headers} {generation : Nat}
    (h : Told pages texts b) (known : seen ∈ texts) (short : FirstPageShort pages)
    (queue : b.queue = p :: rest) (wanted : b.discardUntilBos = true → p.isBos = true)
    (observed : b.headers.observe p = .ok headers)
    (announced : Announced config b headers generation marker)
    (fresh : p.isBos = false → Fresh seen b) :
    headers.packets < 3 ∨ readSmall (markerText marker) ≠ seen := by
  by_cases bos : p.isBos = true
  · left
    have inside : p ∈ pages := by
      rw [← h.running.tracking.whole, queue]
      simp
    rw [(observe_bos bos observed).packets_eq]
    exact short p inside bos
  · have notBos : p.isBos = false := by simpa using bos
    have steady : b.discardUntilBos = false := by simpa [notBos] using wanted
    have follows := h.running.tracking.follows steady
    obtain ⟨begun, follows'⟩ := observe_next follows notBos observed
    have serial : ∃ serial, headers.serial = some serial := by
      rw [follows'.serial_eq, List.head?_append_of_ne_nil _ begun, List.head?_eq_some_head begun]
      exact ⟨_, rfl⟩
    obtain ⟨serial, hserial⟩ := serial
    have bound := follows'.packets_le
    rw [Announced] at announced
    by_cases complete : b.headers.packets ≠ 3 ∧ headers.packets = 3
    · rw [if_pos complete] at announced
      obtain ⟨rfl, rfl⟩ := announced
      right
      rw [hserial]
      exact known_ne (h.texts seen known)
    · rw [if_neg complete] at announced
      obtain ⟨rfl, rfl⟩ := announced
      rcases fresh notBos with (discards | few | ⟨-, next⟩) | unseen
      · rw [discards] at steady
        cases steady
      · left
        omega
      · exact absurd (next p (by simp [queue])) bos
      · exact Or.inr unseen

theorem serves_client {closed : List Connection} (h : serves b closed = true) :
    b.client ≠ none ∧ b.closed = closed := by
  simp only [serves, Bool.and_eq_true, beq_iff_eq, Option.isSome_iff_ne_none] at h
  exact h

theorem move_covered (h : Told pages texts b) (known : seen ∈ texts) (short : FirstPageShort pages)
    (writes : closed ≠ none → writeFails tick.write = false) (covered : Covered closed seen b)
    (move : Move config tick b b') : Covered closed seen b' := by
  cases move with
  | discarded _ _ discards _ => exact Or.inr (Or.inl (Or.inl discards))
  | @kept p rest headers generation marker noPending queue wanted observed announced =>
    obtain ⟨sameHeaders, -, sameMarker⟩ :=
      (keptPage_spec b p rest headers generation marker).stream
    have learns : (p.isBos = false → Fresh seen b) →
        Fresh seen (keptPage b p rest headers generation marker) := by
      intro fresh
      rcases kept_fresh h known short queue wanted observed announced fresh with few | unseen
      · exact Or.inl (Or.inr (Or.inl (by rwa [sameHeaders])))
      · exact Or.inr (by rwa [sameMarker])
    by_cases bos : p.isBos = true
    · exact Or.inr (learns fun notBos => absurd bos (by simp [notBos]))
    · rcases covered with ⟨c, hc, serving⟩ | fresh
      · refine Or.inl ⟨c, hc, ?_⟩
        have inside : (b.takePage p rest).beginStream p = b.takePage p rest := if_neg bos
        rw [inside, keepPage]
        split
        · exact serving
        · exact serving
      · exact Or.inr (learns fun _ => fresh)
  | timed => exact covered
  | @wrote p c n pending client _ _ =>
    rcases covered with ⟨closed, hclosed, serving⟩ | fresh
    · refine Or.inl ⟨closed, hclosed, ?_⟩
      obtain ⟨-, same⟩ := serves_client serving
      simp only [advance]
      split
      · simpa [serves] using same
      · simpa [serves] using same
    · exact Or.inr (fresh_of_sameStream (advance_sameStream b p c n) (by simp [pending]) fresh)
  | disconnected pending _ failed =>
    rcases covered with ⟨closed, hclosed, -⟩ | fresh
    · rw [writes (by simp [Option.mem_def.mp hclosed])] at failed
      cases failed
    · have same : SameStream b b.disconnect := ⟨rfl, rfl, rfl, rfl⟩
      exact Or.inr (fresh_of_sameStream same (by simp [pending]) fresh)

theorem accepting_covered (covered : Covered closed seen b) (accepting : Accepting tick b b') :
    Covered closed seen b' := by
  cases accepting with
  | nobody _ => exact covered
  | replayed _ _ noClient =>
    rcases covered with ⟨closed, -, serving⟩ | fresh
    · exact absurd noClient (serves_client serving).1
    · exact Or.inr fresh
  | replayFailed _ _ noClient _ _ =>
    rcases covered with ⟨closed, -, serving⟩ | fresh
    · exact absurd noClient (serves_client serving).1
    · exact Or.inr fresh

theorem checkLoading_covered (covered : Covered closed seen b) (tick : Tick) :
    Covered closed seen (b.checkLoading config tick) := by
  rcases checkLoading_cases config tick b with ⟨same, -⟩ | ⟨text, -, -, -, new⟩
  · rw [same]
    exact covered
  · rw [new]
    exact Or.inr (Or.inl (Or.inl rfl))

theorem taken_covered (noClient : b.client = none) {s : Socket} (socket : tick.accept = .socket s)
    (serves : served s) (accepting : Accepting tick b b') : Covered (some b.closed) seen b' := by
  obtain ⟨accepted, replays, timeout⟩ := serves
  cases accepting with
  | nobody refused => exact absurd accepted (refused noClient s socket)
  | replayed => exact Or.inl ⟨b.closed, rfl, by simp [RadioSystem.serves, replay]⟩
  | replayFailed socket' _ _ _ fails =>
    rw [socket] at socket'
    cases socket'
    simp [replays, timeout] at fails

theorem step_covered (h : Told pages texts b) (known : seen ∈ texts) (short : FirstPageShort pages)
    (writes : closed ≠ none → writeFails tick.write = false) (alive : b.exit = none)
    (accepted : ∀ m, Accepting tick (b.checkLoading config tick) m → Covered closed seen m)
    (still : (Bridge.step config b tick).exit = none) :
    Covered closed seen (Bridge.step config b tick) := by
  obtain ⟨m₁, accepts, m, path, last⟩ := step_ends config tick b alive
  have keeps : ∀ b b', Told pages texts b ∧ Covered closed seen b → Move config tick b b' →
      Told pages texts b' ∧ Covered closed seen b' :=
    fun _ _ h move => ⟨move_told h.1 move, move_covered h.1 known short writes h.2 move⟩
  have told := accepting_told (checkLoading_told h tick) accepts
  have along := moves_running config tick keeps path ⟨told, accepted m₁ accepts⟩
  rcases last with same | leaving
  · rw [same]
    exact along.2
  · exact absurd still (leave_exit leaving)

/-- A connection that is no longer served leaves the applet a stream to learn of. -/
theorem link_of_covered {closed : List Connection} (covered : Covered (some closed) seen b)
    (result : link = if serves b closed then .accepted else .none) :
    (link = .accepted → b.client ≠ none) ∧ (link ≠ .none ∨ Fresh seen b) := by
  by_cases serving : serves b closed = true
  · rw [if_pos serving] at result
    exact ⟨fun _ => (serves_client serving).1, Or.inl (by simp [result])⟩
  · rw [if_neg serving] at result
    refine ⟨by simp [result], Or.inr ?_⟩
    rcases covered with ⟨c, hc, serves⟩ | fresh
    · cases hc
      exact absurd serves serving
    · exact fresh

theorem step_told (h : b.exit = none → Told pages texts b) :
    (Bridge.step config b tick).exit = none → Told pages texts (Bridge.step config b tick) := by
  have kept : Kept (Told pages texts) (fun _ => True) (Bridge.step config b tick) :=
    step_kept config tick b (fun h => checkLoading_told h tick) (fun _ _ h => accepting_told h)
      (fun _ _ h => move_told h) (fun _ h => h) (fun _ _ => trivial) (fun _ _ _ _ => trivial) h
      (fun _ => trivial)
  exact kept.between

end Bridge

section Applet

variable (a : Applet) (players : Players) (d : Sample)

/-- The tick sees that the remote playback has stopped. -/
def stops (a : Applet) (d : Sample) : Prop :=
  d.playbackState = some stoppedText ∧ d.playbackState ≠ a.lastPlaybackState

theorem start_result (p : SpotifyPlayback) : (p.start players).2 = hasPlayback players := by
  simp only [SpotifyPlayback.start, hasPlayback]
  cases players.localPlayer.or players.currentPlayer with
  | none => rfl
  | some player =>
    cases hp : player.playback with
    | none => simp [hp]
    | some object =>
      cases p.remoteVolume with
      | none => simp [hp]
      | some percent => simp [hp]

theorem followState_link (connected : link ≠ .none) (going : ¬ stops a d) :
    ∃ more, (a.followState players d).calls = a.calls ++ more ∧ more.foldl follow link ≠ .none := by
  have afterStart : ∀ connected, follow link (.start connected) ≠ .none := by
    intro started
    cases started with
    | true => simp [follow]
    | false => exact connected
  rw [Applet.followState]
  split
  · rename_i changed
    simp only [Bool.and_eq_true, bne_iff_ne] at changed
    rw [Applet.react]
    split
    · exact ⟨[.pause _], rfl, connected⟩
    · split
      · rename_i stopped
        exact absurd ⟨stopped, changed.2⟩ going
      · split
        · simp only [Applet.callResume]
          split
          · exact ⟨[.resume _], rfl, connected⟩
          · exact ⟨[.resume _, .start _], List.append_assoc a.calls [_] [_], afterStart _⟩
        · exact ⟨[], by simp, connected⟩
  · exact ⟨[], by simp, connected⟩

theorem watch_calls :
    (a.watch players d).calls =
      ((a.followState players d).followStream players (a.streamChanged d)).calls :=
  (followVolume_frame
    (((a.followState players d).followStream players (a.streamChanged d)).remember d) players
      d).calls

theorem watch_changed (link : Link) (changed : a.streamChanged d = true)
    (present : hasPlayback players = true) :
    (newCalls a (a.watch players d)).foldl follow link = .waiting := by
  obtain ⟨more, calls, -⟩ := followState_calls a players d
  have all : newCalls a (a.watch players d) = more ++ [.start true] := by
    rw [newCalls, watch_calls, changed]
    simp only [Applet.followStream, if_true, Applet.callStart, start_result, present, calls]
    rw [List.append_assoc, List.drop_left]
  rw [all, List.foldl_append]
  rfl

/-- Without a new stream the memory of the marker stays, and so does the connection. -/
theorem watch_unchanged (link : Link) (same : a.streamChanged d = false) :
    (a.watch players d).lastStreamMarker = a.lastStreamMarker ∧
      (link ≠ .none → ¬ stops a d →
        (newCalls a (a.watch players d)).foldl follow link ≠ .none) := by
  constructor
  · rw [(watch_spec a players d).lastStreamMarker]
    cases stream : d.stream with
    | none => rfl
    | some text => simpa [Applet.streamChanged, stream] using same
  · intro connected going
    obtain ⟨more, calls, still⟩ := followState_link a players d connected going
    have all : newCalls a (a.watch players d) = more := by
      rw [newCalls, watch_calls, same, Applet.followStream, if_neg Bool.false_ne_true, calls]
      exact List.drop_left
    rw [all]
    exact still

theorem accepted_of_follow {calls : List Call} (accepted : calls.foldl follow link = .accepted) :
    link = .accepted := by
  induction calls generalizing link with
  | nil => exact accepted
  | cons call rest ih =>
    have next := ih accepted
    cases call with
    | start connected => cases connected <;> simp_all [follow]
    | stop stopped => cases stopped <;> simp_all [follow]
    | pause => exact next
    | resume => exact next

end Applet

section Radio

variable {Uri D S : Type} {pages : List Page}

/-- The stream markers that the applet remembers or has just read. -/
def markersRead (r : Radio Uri D S) : List (Option Text) :=
  r.applet.lastStreamMarker :: ((r.reading.drop 1).take 1).map readSmall

/-- As long as the engine plays, the local playback is connected or can learn of a stream. -/
structure Awake (pages : List Page) (r : Radio Uri D S) : Prop where
  told : Told pages (markersRead r) r.bridge
  serving : r.link = .accepted → r.bridge.client ≠ none
  covered : r.link ≠ .none ∨ Fresh r.applet.lastStreamMarker r.bridge ∨ isPlaying r.player = false

theorem not_stuck_of_awake {r : Radio Uri D S} (h : r.bridge.exit = none → Awake pages r) :
    ¬ Stuck r := by
  intro stuck
  have awake := h stuck.running
  rcases awake.covered with connected | ((discards | few | ⟨idle, -⟩) | unseen) | silent
  · exact connected stuck.stopped
  · rw [stuck.keeps] at discards
    cases discards
  · obtain ⟨p, pending⟩ := Option.isSome_iff_exists.mp stuck.pending
    obtain ⟨steady, -, front, -, split, header⟩ := awake.told.running.holding p pending
    rw [stuck.audio, if_neg Bool.false_ne_true] at header
    have complete := headerPackets_complete header [p]
    rw [(awake.told.running.tracking.follows steady).packets_eq, split] at few
    omega
  · have pending := stuck.pending
    rw [idle] at pending
    cases pending
  · exact unseen stuck.sameMarker.symm
  · rw [stuck.playing] at silent
    cases silent

variable [DecidableEq Uri] [Decoder D] [Sink S]

/-- What keeps the parties from waiting for each other: the engine starts to play without a
connection, and the applet stops the playback, only where the applet can learn of a stream; the
connection of the local playback does not fail; and a new stream can be started. -/
def Harmless (r : Radio Uri D S) : RadioSystem.Input Uri D → Prop
  | .engine input => r.link = .none → isPlaying r.player = false →
      isPlaying (PlayerThread.step r.player input) = true →
        Fresh r.applet.lastStreamMarker r.bridge
  | .bridge tick ours =>
    (r.link = .accepted → writeFails tick.write = false) ∧
      (r.link = .waiting → ours = true → ∀ s, tick.accept = .socket s →
        served s ∧ writeFails tick.write = false)
  | .watch players => ∀ d, sampleOf r.reading = some d →
      if r.applet.streamChanged d then hasPlayback players = true
      else stops r.applet d →
        Fresh r.applet.lastStreamMarker r.bridge ∨ isPlaying r.player = false
  | _ => True

variable (written : S → List Page) (catalogue : Catalogue Uri) {r : Radio Uri D S}

theorem engine_awake (h : Awake pages r) (input : PlayerThread.Input Uri D)
    (harmless : Harmless r (.engine input)) :
    Awake pages (r.step written catalogue (.engine input)) := by
  refine ⟨h.told, h.serving, ?_⟩
  by_cases connected : r.link = .none
  · by_cases plays : isPlaying (PlayerThread.step r.player input) = true
    · rcases h.covered with other | fresh | silent
      · exact Or.inl other
      · exact Or.inr (Or.inl fresh)
      · exact Or.inr (Or.inl (harmless connected silent plays))
    · have silent : isPlaying (PlayerThread.step r.player input) = false := by simpa using plays
      exact Or.inr (Or.inr silent)
  · exact Or.inl connected

/-- A connection that is served stays covered, and so does one that is taken. -/
theorem bridge_covered (h : Awake pages r) (short : FirstPageShort pages) {tick : Tick}
    {ours : Bool} (harmless : Harmless r (.bridge tick ours)) (alive : r.bridge.exit = none)
    (still : (r.step written catalogue (.bridge tick ours)).bridge.exit = none) :
    let r' := r.step written catalogue (.bridge tick ours)
    (r'.link = .accepted → r'.bridge.client ≠ none) ∧
      (r'.link ≠ .none ∨ Fresh r.applet.lastStreamMarker r'.bridge ∨ isPlaying r.player =
        false) := by
  intro r'
  let tick' := r.tickOf written tick
  let seen := r.applet.lastStreamMarker
  have round : ∀ closed : Option (List Connection),
      (closed ≠ none → writeFails tick'.write = false) →
      (∀ m, Accepting tick' (r.bridge.checkLoading config tick') m → Covered closed seen m) →
      Covered closed seen r'.bridge :=
    fun _ writes accepted =>
      step_covered h.told (List.mem_cons_self ..) short writes alive accepted still
  have kept : ∀ closed : Option (List Connection),
      (closed ≠ none → writeFails tick'.write = false) → Covered closed seen r.bridge →
      Covered closed seen r'.bridge :=
    fun closed writes covered => round closed writes fun m accepting =>
      accepting_covered (checkLoading_covered covered tick') accepting
  cases link : r.link with
  | none =>
    have stays : r'.link = .none := by simp [r', Radio.step, link, linkAfter]
    refine ⟨by simp [stays], Or.inr ?_⟩
    rcases h.covered with other | fresh | silent
    · exact absurd link other
    · rcases kept none (by simp) (Or.inr fresh) with ⟨c, hc, -⟩ | fresh'
      · cases hc
      · exact Or.inl fresh'
    · exact Or.inr silent
  | accepted =>
    obtain ⟨client, hclient⟩ := Option.ne_none_iff_exists'.mp (h.serving link)
    have serving : serves r.bridge r.bridge.closed = true := by simp [serves, hclient]
    have covered := kept (some r.bridge.closed) (fun _ => harmless.1 link)
      (Or.inl ⟨_, rfl, serving⟩)
    have result := link_of_covered covered
      (show r'.link = _ by simp [r', Radio.step, link, linkAfter])
    exact result.imp_right fun covers => covers.imp_right Or.inl
  | waiting =>
    by_cases taken : (ours && takes r.bridge tick') = true
    · obtain ⟨own, takes⟩ := Bool.and_eq_true_iff.mp taken
      simp only [RadioSystem.takes, Bool.and_eq_true, Option.isNone_iff_eq_none] at takes
      obtain ⟨⟨-, noClient⟩, offered⟩ := takes
      cases accept : tick.accept with
      | socket s =>
        obtain ⟨served, writes⟩ := harmless.2 link own s accept
        have offers : tick'.accept = .socket s := accept
        have covered := round (some (r.bridge.checkLoading config tick').closed) (fun _ => writes)
          fun m accepting => taken_covered noClient offers served accepting
        have result := link_of_covered covered (show r'.link = _ by
          simp only [r', Radio.step, link, linkAfter]
          rw [if_pos taken])
        exact result.imp_right fun covers => covers.imp_right Or.inl
      | wouldBlock => simp [tick', Radio.tickOf, accept] at offered
      | failed => simp [tick', Radio.tickOf, accept] at offered
    · have stays : r'.link = .waiting := by
        simp only [r', Radio.step, link, linkAfter]
        rw [if_neg taken]
      exact ⟨by simp [stays], Or.inl (by simp [stays])⟩

/-- A marker that is read is one of the generations so far. -/
theorem read_awake (h : Awake pages r) : Awake pages (r.step written catalogue .read) := by
  refine ⟨⟨h.told.running, h.told.marker, ?_⟩, h.serving, h.covered⟩
  intro text inside
  rcases List.mem_cons.mp inside with rfl | inside
  · exact h.told.texts _ (List.mem_cons_self ..)
  · simp only [Radio.step] at inside
    have old : ∀ text, text ∈ ((r.reading.drop 1).take 1).map readSmall →
        Known r.bridge.generation text :=
      fun text inside => h.told.texts text (List.mem_cons_of_mem _ inside)
    cases reading : r.reading with
    | nil => simp [reading] at inside
    | cons first rest =>
      rw [reading] at inside old
      cases rest with
      | nil =>
        obtain rfl : text = readSmall (markerText r.bridge.streamMarker) := by
          simpa [Radio.nextRead, reading] using inside
        exact h.told.marker
      | cons second rest => exact old text (by simpa using inside)

theorem stream_of_sample {reading : List (Option Text)} {d : Sample}
    (sampled : sampleOf reading = some d) :
    d.stream ∈ ((reading.drop 1).take 1).map readSmall := by
  rw [sampleOf.eq_def] at sampled
  split at sampled
  · cases sampled
    exact List.mem_singleton_self _
  · cases sampled

theorem watch_awake (h : Awake pages r) (players : Players)
    (harmless : Harmless r (.watch players)) :
    Awake pages (r.step written catalogue (.watch players)) := by
  simp only [Radio.step]
  cases sampled : sampleOf r.reading with
  | none => exact h
  | some d =>
    have known : Known r.bridge.generation d.stream :=
      h.told.texts _ (List.mem_cons_of_mem _ (stream_of_sample sampled))
    have memory := (watch_spec r.applet players d).lastStreamMarker
    have allowed := harmless d sampled
    dsimp only
    refine ⟨⟨h.told.running, h.told.marker, ?_⟩, ?_, ?_⟩
    · intro text inside
      obtain rfl : text = (r.applet.watch players d).lastStreamMarker := by
        simpa [markersRead] using inside
      rw [memory]
      cases stream : d.stream with
      | none => exact h.told.texts _ (List.mem_cons_self ..)
      | some marker =>
        rw [stream] at known
        exact known
    · exact fun accepted => h.serving (accepted_of_follow accepted)
    · by_cases changed : r.applet.streamChanged d = true
      · rw [if_pos changed] at allowed
        left
        rw [watch_changed r.applet players d r.link changed allowed]
        simp
      · rw [if_neg changed] at allowed
        obtain ⟨same, keeps⟩ := watch_unchanged r.applet players d r.link (by simpa using changed)
        rw [same]
        by_cases stopping : stops r.applet d
        · exact Or.inr (allowed stopping)
        · rcases h.covered with connected | rest
          · exact Or.inl (keeps connected stopping)
          · exact Or.inr rest

theorem boot_awake (h : Awake pages r) (players : Players) :
    Awake pages (r.step written catalogue (.boot players)) := by
  have calls : newCalls r.applet (r.applet.callStart players) =
      [.start (r.applet.playback.start players).2] := List.drop_left
  refine ⟨h.told, fun accepted => h.serving (accepted_of_follow accepted), ?_⟩
  simp only [Radio.step, calls]
  rcases h.covered with connected | rest
  · left
    cases (r.applet.playback.start players).2 with
    | true => simp [follow]
    | false => exact connected
  · exact Or.inr rest

/-- A bridge that has ended does nothing more. -/
theorem alive_of_step {input : RadioSystem.Input Uri D}
    (still : (r.step written catalogue input).bridge.exit = none) : r.bridge.exit = none := by
  cases input with
  | bridge tick ours =>
    by_contra ended
    have stays : r.bridge.step config (r.tickOf written tick) = r.bridge := by
      rw [Bridge.step, if_pos]
      simpa [Option.isSome_iff_ne_none] using ended
    simp only [Radio.step, stays] at still
    exact ended still
  | helper =>
    simp only [Radio.step] at still
    split at still <;> exact still
  | watch players =>
    simp only [Radio.step] at still
    split at still <;> exact still
  | engine | helperFails | read | boot => exact still

theorem helper_awake (h : Awake pages r) : Awake pages (r.step written catalogue .helper) := by
  simp only [Radio.step]
  split
  · exact h
  · exact ⟨h.told, h.serving, h.covered⟩
  · exact ⟨h.told, h.serving, h.covered⟩

theorem step_awake (short : FirstPageShort pages) (h : r.bridge.exit = none → Awake pages r)
    (input : RadioSystem.Input Uri D) (harmless : Harmless r input) :
    (r.step written catalogue input).bridge.exit = none →
      Awake pages (r.step written catalogue input) := by
  intro still
  have alive := alive_of_step written catalogue still
  have awake := h alive
  cases input with
  | engine input => exact engine_awake written catalogue awake input harmless
  | helper => exact helper_awake written catalogue awake
  | helperFails => exact ⟨awake.told, awake.serving, awake.covered⟩
  | bridge tick ours =>
    obtain ⟨serving, covered⟩ := bridge_covered written catalogue awake short harmless alive still
    exact ⟨step_told (fun _ => awake.told) still, serving, covered⟩
  | read => exact read_awake written catalogue awake
  | watch players => exact watch_awake written catalogue awake players harmless
  | boot players => exact boot_awake written catalogue awake players

omit [DecidableEq Uri] [Decoder D] [Sink S] in
theorem start_awake (player : PlayerInternal Uri D S) : Awake pages (start player pages) := by
  refine ⟨⟨new_running pages (.ok ()), Or.inl rfl, ?_⟩, by simp [start], Or.inr (Or.inl ?_)⟩
  · intro text inside
    obtain rfl : text = none := by simpa [markersRead, start, Applet.init] using inside
    exact Or.inl rfl
  · exact Or.inl (Or.inr (Or.inl (Nat.succ_pos 2)))

/-- In a run of harmless steps bridge and applet never wait for each other. -/
theorem not_stuck_of_harmless (player : PlayerInternal Uri D S) (pages : List Page)
    (short : FirstPageShort pages) (inputs : List (RadioSystem.Input Uri D))
    (harmless : Along (Radio.step written catalogue) Harmless (start player pages) inputs) :
    ¬ Stuck (run (Radio.step written catalogue) (start player pages) inputs) := by
  have keeps : ∀ (r : Radio Uri D S) input, (r.bridge.exit = none → Awake pages r) →
      Harmless r input → (r.step written catalogue input).bridge.exit = none →
        Awake pages (r.step written catalogue input) :=
    fun _ input h good => step_awake written catalogue short h input good
  have begun : (start player pages).bridge.exit = none → Awake pages (start player pages) :=
    fun _ => start_awake player
  exact not_stuck_of_awake (run_invariant keeps begun harmless)

end Radio

section Example

/-- A pipe that keeps what is written to it. -/
structure Pipe where
  bytes : List UInt8

instance : Sink Pipe where
  start s := (.ok (), s)
  stop s := (.ok (), s)
  write s packet :=
    match packet with
    | .raw data => (.ok (), ⟨s.bytes ++ data⟩)
    | .samples _ => (.ok (), s)

def written (s : Pipe) : List Page := wholePages s.bytes

abbrev RadioInput := RadioSystem.Input String PlayerGuarantees.RadioDecoder

def track (id : String) : PlayerLoadedTrackData String PlayerGuarantees.RadioDecoder where
  decoder := ⟨[.ok ⟨audio.bytes, 44100, true, false⟩, .ok ⟨audio.bytes, 88200, true, true⟩],
    ⟨[], []⟩,
    false, false, 0, 1, identification.bytes, comment.bytes, setup.bytes⟩
  streamLoaderController := ⟨false⟩
  audioItem := ⟨id, 2000, false⟩
  bytesPerSecond := 20000
  durationMs := 2000
  streamPositionMs := 0
  isExplicit := false

def pipePlayer : PlayerInternal String PlayerGuarantees.RadioDecoder Pipe :=
  initial ⟨true, true, none, id⟩ ⟨[]⟩ 0

def engine (phase : Phase String PlayerGuarantees.RadioDecoder) : RadioInput :=
  .engine ⟨⟨0, true, true⟩, phase⟩

def round : RadioInput := .bridge { quiet with ready := true, later := 1 } false

/-- The watcher reads its files and reacts. -/
def look : List RadioInput := [.read, .read, .read, .read, .watch ownPlayer]

/-- The first track, and the beginning of the second one. -/
def twoTracks : List Page :=
  [identification, comment, setup, audio, audio, identification, comment, setup, audio]

/-- The first track is loaded, and the applet connects to its stream. -/
def firstTrack : List RadioInput :=
  [engine (.command (.load "a" true 0))] ++ List.replicate 5 .helper ++ [round] ++
  [engine (.loader (.ready (track "a"))), engine .packet, engine .packet] ++
  List.replicate 5 .helper ++ [round, round, round] ++ look

/-- One page of audio is played, and the next one waits to be written. -/
def secondPage : List RadioInput :=
  [.bridge { quiet with
      ready := true, accept := .socket player, later := 1, write := .ok 1000 } true,
    round]

/-- The engine reaches the end of the track and goes on with one that has been preloaded. -/
def preloadedTrack : List RadioInput :=
  [engine (.command (.preload "b")), engine (.preload (.ready (track "b"))), engine .packet] ++
  List.replicate 4 .helper ++ look ++
  [.bridge { quiet with later := 1, write := .error .other } false,
    engine (.command (.load "b" true 0)), engine .packet] ++
  List.replicate 6 .helper ++ look

theorem preloadedTrack_stuck :
    Stuck (run (Radio.step written noCatalogue) (start pipePlayer twoTracks)
      (firstTrack ++ secondPage ++ preloadedTrack)) := by
  constructor <;> decide +kernel

/-- A track is loaded, its headers are announced, and the applet connects. -/
def tunedIn : List RadioInput :=
  [engine (.command (.load "a" true 0)), engine (.loader (.ready (track "a"))), engine .packet,
    round, round, round] ++ look ++
  [.bridge { quiet with
      ready := true, accept := .socket player, later := 1, write := .ok 1000 } true]

theorem twoTracks_firstPageShort : FirstPageShort twoTracks := by
  unfold FirstPageShort
  decide +kernel

theorem tunedIn_not_stuck :
    ¬ Stuck (run (Radio.step written noCatalogue) (start pipePlayer twoTracks) tunedIn) := by
  have idle : ∀ r : Radio String PlayerGuarantees.RadioDecoder Pipe, r.link = .none →
      Harmless r round := by
    intro r link
    constructor
    · intro accepted
      rw [link] at accepted
      cases accepted
    · intro waiting
      rw [link] at waiting
      cases waiting
  refine not_stuck_of_harmless written noCatalogue pipePlayer twoTracks twoTracks_firstPageShort
    tunedIn ⟨?_, ?_, ?_, idle _ ?_, idle _ ?_, idle _ ?_, trivial, trivial, trivial, trivial, ?_,
      ⟨?_, ?_⟩, trivial⟩
  · exact fun _ _ plays => absurd plays (by decide +kernel)
  · exact fun _ _ _ => Or.inl (Or.inr (Or.inl (by decide +kernel)))
  · exact fun _ silent _ => absurd silent (by decide +kernel)
  · decide +kernel
  · decide +kernel
  · decide +kernel
  · intro d sampled
    have reading : (run (Radio.step written noCatalogue) (start pipePlayer twoTracks)
        (tunedIn.take 10)).reading = [none, some ['1', ':', '1', '\n'], none, none] := by
      decide +kernel
    have given : sampleOf (run (Radio.step written noCatalogue) (start pipePlayer twoTracks)
        (tunedIn.take 10)).reading = some d := sampled
    rw [reading] at given
    cases given
    rw [if_pos (by decide +kernel)]
    rfl
  · exact fun accepted => absurd accepted (by decide +kernel)
  · rintro _ _ s ⟨⟩
    exact ⟨⟨by decide +kernel, rfl, rfl⟩, rfl⟩

end Example

end RadioRuns
