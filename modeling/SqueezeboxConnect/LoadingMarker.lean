import SqueezeboxConnect.Metadata
import SqueezeboxConnect.ClientStream

/-!
# Loading markers and the order of streams

The helper writes a marker when a track is loaded, and the pages of the track
come through another channel. The bridge takes a marker with a new text for a
cut between the streams: it discards what it holds, up to the next page that
begins a stream. Here the loads are counted from one, every page belongs to a
load, and the state adds the last load whose marker the bridge could see.
-/

namespace LoadingMarker

open Runs Streams OggPage HeaderTracker BridgeLoop Bridge BridgeMoves ClientStream Metadata Words

/-- A load of a track: its marker and the logical stream it sends, if it comes to that. -/
structure Load where
  trackId : Text
  pages : List Page
  /-- A track id is not empty and has no blanks around it. -/
  named : readMarker (some trackId) = some trackId
  stream : pages = [] ∨ IsStream Page.isBos pages

def allPages (loads : List Load) : List Page := loads.flatMap Load.pages

/-- The load a page belongs to. -/
def owner : List Load → Nat → Nat
  | [], _ => 0
  | load :: rest, page =>
    if page < load.pages.length then 1 else owner rest (page - load.pages.length) + 1

/-- The files when the helper has been run for a load. -/
def announce (files : Files) (load : Load) : Files :=
  (main { event := .loading, trackId := load.trackId }).foldl FileOp.apply files

/-- The marker file when the helper has been run for the first `seen` loads. -/
def marker (loads : List Load) (seen : Nat) : Option Text :=
  (loads.take seen).foldl announce noFiles .loading

structure Watching where
  seen : Nat
  bridge : Bridge

/-- The input of a round: how many markers were replaced since the last look. -/
structure Look where
  newer : Nat
  tick : Tick

def watch (config : Config) (loads : List Load) (s : Watching) (look : Look) : Watching :=
  let seen := min (s.seen + look.newer) loads.length
  ⟨seen, step config s.bridge { look.tick with loading := marker loads seen }⟩

def start (loads : List Load) (ending : Except ReadError Unit) : Watching :=
  ⟨0, new (allPages loads, ending)⟩

/-- What may happen to a page when the marker of a load has been seen. -/
def Complies (loads : List Load) (seen : Nat) : Event → Prop
  | .replayed page bytes => bytes = [] ∨ seen ≤ owner loads page
  | .sent page _ => seen ≤ owner loads page
  | .discarded page => owner loads page < seen

/-- In every round of a run, clients only get pages of the load seen last or of
later ones, and only pages of earlier ones are discarded. -/
def KeepsOrder (config : Config) (loads : List Load) (ending : Except ReadError Unit)
    (looks : List Look) : Prop :=
  Along (watch config loads) (fun s look =>
    ∀ e ∈ (watch config loads s look).bridge.log.drop s.bridge.log.length,
      Complies loads (watch config loads s look).seen e) (start loads ending) looks

/-- The position of the first page that has not been dealt with. -/
def undelivered (b : Bridge) : Nat := b.received.length - if b.pending.isSome then 1 else 0

/-- The position of the next page that begins a stream. -/
def nextBos (b : Bridge) : Nat := b.received.length + (b.queue.takeWhile fun p => !p.isBos).length

/-- The pages up to the next stream are older than a load, and that stream is not. -/
def Drains (loads : List Load) (seen : Nat) (b : Bridge) : Prop :=
  (∀ i < nextBos b, undelivered b ≤ i → owner loads i < seen) ∧
    (nextBos b < (allPages loads).length → seen ≤ owner loads (nextBos b))

/-- Nothing that is older than a load is left. -/
def Delivers (loads : List Load) (seen : Nat) (b : Bridge) : Prop :=
  undelivered b < (allPages loads).length → seen ≤ owner loads (undelivered b)

def isSocket : Accept → Bool
  | .socket _ => true
  | _ => false

/-- The marker of a load comes in time. If it makes the bridge discard pages, it is seen
between the first page of the previous stream and its own; otherwise nothing older is left.
Nobody connects while the header pages of an older stream are in the cache. -/
def Timely (config : Config) (loads : List Load) (s : Watching) (look : Look) : Prop :=
  let seen := (watch config loads s look).seen
  let b := s.bridge
  (seen ≠ s.seen →
    if b.discardUntilBos = true ∨ b.lastLoading ≠ marker loads seen then Drains loads seen b
    else Delivers loads seen b) ∧
  (isSocket look.tick.accept = true → b.client.isSome = true ∧ b.lastLoading = marker loads seen ∨
    b.headers.bytes = [] ∨ seen ≤ owner loads b.streamStart)

instance (config : Config) (loads : List Load) (s : Watching) (look : Look) :
    Decidable (Timely config loads s look) := by
  unfold Timely Drains Delivers
  infer_instance

instance (loads : List Load) (seen : Nat) (e : Event) : Decidable (Complies loads seen e) := by
  cases e <;> unfold Complies <;> infer_instance

theorem owner_mono (loads : List Load) {i j : Nat} (le : i ≤ j) :
    owner loads i ≤ owner loads j := by
  induction loads generalizing i j with
  | nil => simp [owner]
  | cons load rest ih =>
    have later := ih (show i - load.pages.length ≤ j - load.pages.length by omega)
    simp only [owner]
    split <;> split <;> omega

/-- The marker file holds the track id of the last load that was announced. -/
theorem foldl_announce (loads : List Load) :
    loads.foldl announce noFiles .loading = loads.getLast?.map Load.trackId := by
  induction loads using List.reverseRecOn with
  | nil => rfl
  | append_singleton loads load ih =>
    rw [List.foldl_append, List.foldl_cons, List.foldl_nil, announce, loading_of_main]
    simp

theorem marker_eq (loads : List Load) (seen : Nat) :
    marker loads seen = (loads.take seen).getLast?.map Load.trackId :=
  foldl_announce _

theorem readMarker_marker (loads : List Load) (seen : Nat) :
    readMarker (marker loads seen) = marker loads seen := by
  rw [marker_eq]
  cases (loads.take seen).getLast? with
  | none => rfl
  | some load => exact load.named

variable {loads : List Load} {b b' : Bridge} {p : Page}

theorem marker_isSome {seen : Nat} (positive : 0 < seen) (inside : seen ≤ loads.length) :
    ∃ text, marker loads seen = Option.some text := by
  have nonempty : loads.take seen ≠ [] := by
    intro nothing
    have length := congrArg List.length nothing
    simp only [List.length_take, List.length_nil] at length
    omega
  rw [marker_eq, List.getLast?_eq_some_getLast nonempty]
  exact ⟨_, rfl⟩

/-- The order of the pages that are still to come, as the bridge is going to treat them. -/
def Ordered (loads : List Load) (seen : Nat) (b : Bridge) : Prop :=
  if b.discardUntilBos then Drains loads seen b else Delivers loads seen b

theorem drains_of_ordered {seen : Nat} (h : Ordered loads seen b)
    (discards : b.discardUntilBos = true) : Drains loads seen b := by
  rwa [Ordered, if_pos discards] at h

theorem delivers_of_ordered {seen : Nat} (h : Ordered loads seen b)
    (steady : b.discardUntilBos = false) : Delivers loads seen b := by
  rwa [Ordered, if_neg (by simp [steady])] at h

/-- Everything of the log since the round began complies. -/
def Logged (loads : List Load) (seen : Nat) (log : List Event) (b : Bridge) : Prop :=
  ∃ more, b.log = log ++ more ∧ ∀ e ∈ more, Complies loads seen e

theorem logged_same {seen : Nat} {log : List Event} (h : Logged loads seen log b)
    (same : b'.log = b.log) : Logged loads seen log b' := by
  obtain ⟨more, split, comply⟩ := h
  exact ⟨more, same.trans split, comply⟩

theorem logged_more {seen : Nat} {log : List Event} (h : Logged loads seen log b)
    {events : List Event} (same : b'.log = b.log ++ events)
    (comply : ∀ e ∈ events, Complies loads seen e) : Logged loads seen log b' := by
  obtain ⟨more, split, before⟩ := h
  refine ⟨more ++ events, by rw [same, split, List.append_assoc], ?_⟩
  intro e he
  rcases List.mem_append.mp he with old | new
  · exact before e old
  · exact comply e new

/-- What holds behind the look at the marker. -/
structure Orderly (loads : List Load) (seen : Nat) (log : List Event) (b : Bridge) : Prop where
  running : Running (allPages loads) b
  ordered : Ordered loads seen b
  lastLoading : b.lastLoading = marker loads seen
  logged : Logged loads seen log b

variable {loads : List Load} {seen : Nat} {log : List Event} {b : Bridge}

theorem length_allPages (h : Running (allPages loads) b) :
    (allPages loads).length = b.received.length + b.queue.length := by
  rw [← h.tracking.whole, List.length_append]

theorem undelivered_none (noPending : b.pending = none) : undelivered b = b.received.length := by
  simp [undelivered, noPending]

theorem undelivered_some (pending : b.pending = some p) : undelivered b = b.lastPage := by
  simp [undelivered, pending, lastPage]

theorem undelivered_le (b : Bridge) : undelivered b ≤ b.received.length := Nat.sub_le _ _

theorem undelivered_mono (pending : b.pending = some p) (received : b'.received = b.received) :
    undelivered b ≤ undelivered b' := by
  simp only [undelivered, pending, received, Option.isSome_some, if_true]
  split <;> omega

/-- Later pages belong to later loads. -/
theorem delivers_later (h : Delivers loads seen b) (later : undelivered b ≤ undelivered b') :
    Delivers loads seen b' := by
  intro left
  have earlier := h (by omega)
  have mono := owner_mono loads later
  omega

theorem pending_owner (h : Orderly loads seen log b) (pending : b.pending = some p) :
    seen ≤ owner loads b.lastPage := by
  obtain ⟨steady, -, front, -, split, -⟩ := h.running.holding p pending
  have delivers := delivers_of_ordered h.ordered steady
  have total := length_allPages h.running
  have length := length_stream_le b
  have filled := congrArg List.length split
  simp only [List.length_append, List.length_singleton] at filled
  rw [Delivers, undelivered_some pending] at delivers
  apply delivers
  simp only [lastPage]
  omega

theorem loading_orderly (h : Running (allPages loads) b) (drains : Drains loads seen b)
    {text : Text} (new : marker loads seen = some text) :
    Orderly loads seen b.log (b.startLoading text) := by
  have running := startLoading_running h text
  constructor
  · exact running
  · refine (if_pos rfl).mpr ⟨?_, drains.2⟩
    intro i before after
    exact drains.1 i before (Nat.le_trans (undelivered_le b) after)
  · exact new.symm
  · refine ⟨_, rfl, ?_⟩
    cases pending : b.pending with
    | none =>
      intro e he
      simp at he
    | some p =>
      intro e he
      have last : e = .discarded b.lastPage := by simpa using he
      rw [last]
      obtain ⟨-, -, front, -, split, -⟩ := h.holding p pending
      have length := length_stream_le b
      have filled := congrArg List.length split
      simp only [List.length_append, List.length_singleton] at filled
      refine drains.1 b.lastPage ?_ (Nat.le_of_eq (undelivered_some pending))
      simp only [lastPage, nextBos]
      omega

/-- What the bridge remembers between two rounds. -/
structure Between (loads : List Load) (seen : Nat) (b : Bridge) : Prop where
  running : Running (allPages loads) b
  ordered : Ordered loads seen b
  lastLoading : b.lastLoading = marker loads seen

variable {config : Config} {tick : Tick}

theorem checkLoading_orderly {before : Nat} (given : config.loadingMarker = true)
    (reads : tick.loading = marker loads seen) (inside : seen ≤ loads.length)
    (since : before ≤ seen) (h : Between loads before b) (timely : seen ≠ before →
      if b.discardUntilBos = true ∨ b.lastLoading ≠ marker loads seen then Drains loads seen b
      else Delivers loads seen b) : Orderly loads seen b.log (b.checkLoading config tick) := by
  have nothing : Logged loads seen b.log b := ⟨[], by simp, by simp⟩
  have read : readMarker tick.loading = marker loads seen := by rw [reads, readMarker_marker]
  rcases checkLoading_cases config tick b with ⟨same, known⟩ | ⟨text, -, text_eq, fresh, loading⟩
  · rw [same]
    by_cases old : seen = before
    · rw [← old] at h
      exact ⟨h.running, h.ordered, h.lastLoading, nothing⟩
    · obtain ⟨text, positive⟩ := marker_isSome (show 0 < seen by omega) inside
      have last : b.lastLoading = marker loads seen := by
        rw [positive]
        exact known text given (read.trans positive)
      have placed := timely old
      simp only [last, ne_eq, not_true_eq_false, or_false] at placed
      exact ⟨h.running, placed, last, nothing⟩
  · have new : marker loads seen = some text := read.symm.trans text_eq
    rw [← new] at fresh
    have later : seen ≠ before := by
      rintro rfl
      exact fresh h.lastLoading
    have drains := timely later
    rw [if_pos (Or.inr fresh)] at drains
    rw [loading]
    exact loading_orderly h.running drains new

/-- The condition on clients, at the moment they are accepted. -/
def Welcome (loads : List Load) (seen : Nat) (tick : Tick) (b : Bridge) : Prop :=
  isSocket tick.accept = true → b.client = none →
    b.headers.bytes = [] ∨ seen ≤ owner loads b.streamStart

theorem checkLoading_welcome (reads : tick.loading = marker loads seen)
    (timely : isSocket tick.accept = true →
      b.client.isSome = true ∧ b.lastLoading = marker loads seen ∨
        b.headers.bytes = [] ∨ seen ≤ owner loads b.streamStart) :
    Welcome loads seen tick (b.checkLoading config tick) := by
  intro socket noClient
  rcases checkLoading_cases config tick b with ⟨same, -⟩ | ⟨text, -, text_eq, fresh, loading⟩
  · rw [same] at noClient ⊢
    rcases timely socket with ⟨client, -⟩ | cached
    · rw [noClient] at client
      cases client
    · exact cached
  · rw [loading]
    rcases timely socket with ⟨-, known⟩ | cached
    · rw [reads, readMarker_marker, ← known] at text_eq
      exact absurd text_eq fresh
    · exact cached

theorem accepting_orderly (h : Orderly loads seen log b) (welcome : Welcome loads seen tick b)
    (accepting : Accepting tick b b') : Orderly loads seen log b' := by
  have running := accepting_running h.running accepting
  cases accepting with
  | nobody _ => exact h
  | replayed socket _ noClient =>
    have cached := welcome (by rw [socket]; rfl) noClient
    refine ⟨running, h.ordered, h.lastLoading, logged_more h.logged rfl ?_⟩
    intro e he
    rw [List.mem_singleton.mp he]
    exact cached
  | @replayFailed _ sent socket _ noClient part _ =>
    have cached := welcome (by rw [socket]; rfl) noClient
    refine ⟨running, h.ordered, h.lastLoading, logged_more h.logged rfl ?_⟩
    intro e he
    rw [List.mem_singleton.mp he]
    rcases cached with nothing | newer
    · rw [nothing] at part
      exact Or.inl (List.prefix_nil.mp part)
    · exact Or.inr newer

variable {rest : List Page}

theorem nextBos_cons (queue : b.queue = p :: rest) :
    nextBos b = if p.isBos then b.received.length else nextBos (b.takePage p rest) := by
  simp only [nextBos, takePage, queue, List.takeWhile_cons, List.length_append]
  by_cases bos : p.isBos = true
  · simp [bos]
  · simp only [bos, Bool.not_false, if_true, List.length_cons, List.length_nil]
    simp only [Bool.false_eq_true, if_false]
    omega

section

variable (h : Orderly loads seen log b)
include h

theorem discarded_orderly (noPending : b.pending = none) (queue : b.queue = p :: rest)
    (discards : b.discardUntilBos = true) (inside : p.isBos = false) :
    Orderly loads seen log (b.discardPage p rest) := by
  have drains := drains_of_ordered h.ordered discards
  have here := undelivered_none noPending
  have next : undelivered (b.discardPage p rest) = b.received.length + 1 := by
    rw [undelivered_none (by exact noPending)]
    simp [discardPage, takePage]
  have same : nextBos b = nextBos (b.discardPage p rest) := by
    rw [nextBos_cons queue, inside]
    rfl
  have past : b.received.length < nextBos b := by
    rw [same]
    simp only [nextBos, discardPage, takePage, List.length_append, List.length_singleton]
    omega
  constructor
  · exact discardPage_running h.running noPending queue discards inside
  · refine (if_pos (by exact discards)).mpr ⟨?_, ?_⟩
    · intro i before after
      exact drains.1 i (by omega) (by omega)
    · rw [← same]
      exact drains.2
  · exact h.lastLoading
  · refine logged_more h.logged rfl ?_
    intro e he
    rw [List.mem_singleton.mp he]
    exact drains.1 _ past (by omega)

/-- A page that is kept is not older than the marker. -/
theorem kept_owner (noPending : b.pending = none) (queue : b.queue = p :: rest)
    (wanted : b.discardUntilBos = true → p.isBos = true) :
    seen ≤ owner loads b.received.length := by
  have total := length_allPages h.running
  rw [queue, List.length_cons] at total
  by_cases discards : b.discardUntilBos = true
  · have drains := (drains_of_ordered h.ordered discards).2
    rw [nextBos_cons queue, if_pos (wanted discards)] at drains
    exact drains (by omega)
  · have delivers := delivers_of_ordered h.ordered (by simpa using discards)
    rw [Delivers, undelivered_none noPending] at delivers
    exact delivers (by omega)

theorem kept_orderly {headers : Headers} {generation : Nat} {streamMarker : Option (Nat × Nat)}
    (noPending : b.pending = none) (queue : b.queue = p :: rest)
    (wanted : b.discardUntilBos = true → p.isBos = true)
    (kept : KeptPage b p headers generation streamMarker b') (running : Running (allPages loads) b')
    :
    Orderly loads seen log b' := by
  have owned := kept_owner h noPending queue wanted
  have received := kept.received
  have steady : b'.discardUntilBos = false := by
    by_contra discards
    obtain ⟨before, inside⟩ := kept.discards (by simpa using discards)
    rw [wanted before] at inside
    cases inside
  refine ⟨running, ?_, kept.lastLoading.trans h.lastLoading, logged_same h.logged kept.log⟩
  rw [Ordered, if_neg (by simp [steady])]
  intro left
  have later : b.received.length ≤ undelivered b' := by
    simp only [undelivered, received, List.length_append, List.length_singleton]
    split <;> omega
  have mono := owner_mono loads later
  omega

theorem wrote_orderly {c : Connection} {n : Nat} (pending : b.pending = some p)
    (running : Running (allPages loads) (b.advance p c n)) :
    Orderly loads seen log (b.advance p c n) := by
  obtain ⟨steady, -⟩ := h.running.holding p pending
  have owned := pending_owner h pending
  obtain ⟨received, -, discards, loading, logs⟩ := advance_frame b p c n
  refine ⟨running, ?_, loading.trans h.lastLoading, logged_more h.logged logs ?_⟩
  · rw [Ordered, if_neg (by simp [discards, steady])]
    exact delivers_later (delivers_of_ordered h.ordered steady) (undelivered_mono pending received)
  · intro e he
    rw [List.mem_singleton.mp he]
    exact owned

theorem disconnected_orderly (pending : b.pending = some p) :
    Orderly loads seen log b.disconnect := by
  obtain ⟨steady, -⟩ := h.running.holding p pending
  refine ⟨disconnect_running h.running pending, ?_, h.lastLoading, h.logged⟩
  rw [Ordered, if_neg (by simp [disconnect, closeClient, steady])]
  exact delivers_later (delivers_of_ordered h.ordered steady) (undelivered_mono pending rfl)

theorem move_orderly (move : Move config tick b b') : Orderly loads seen log b' := by
  have running := move_running h.running move
  cases move with
  | discarded noPending queue discards inside =>
    exact discarded_orderly h noPending queue discards inside
  | kept noPending queue wanted _ _ =>
    exact kept_orderly h noPending queue wanted (keptPage_spec ..) running
  | timed _ => exact ⟨running, h.ordered, h.lastLoading, h.logged⟩
  | wrote pending _ _ _ => exact wrote_orderly h pending running
  | disconnected pending _ _ => exact disconnected_orderly h pending

theorem leave_logged (leaves : Leave b b') : Logged loads seen log b' := by
  cases leaves with
  | left => exact h.logged
  | @failed p rest =>
    obtain ⟨-, -, -, -, -, same⟩ := beginStream_frame (b.takePage p rest) p
    exact logged_same h.logged same

end

/-- What a run keeps from round to round. -/
structure Ready (loads : List Load) (s : Watching) : Prop where
  inside : s.seen ≤ loads.length
  between : s.bridge.exit = none → Between loads s.seen s.bridge

theorem watch_kept {s : Watching} {look : Look} (given : config.loadingMarker = true)
    (h : Ready loads s) (timely : Timely config loads s look) :
    Kept (Between loads (watch config loads s look).seen)
      (Logged loads (watch config loads s look).seen s.bridge.log)
      (watch config loads s look).bridge := by
  obtain ⟨arrival, connection⟩ := timely
  have inside : (watch config loads s look).seen ≤ loads.length := Nat.min_le_right _ _
  have since : s.seen ≤ (watch config loads s look).seen :=
    Nat.le_min.mpr ⟨Nat.le_add_right _ _, h.inside⟩
  refine @step_kept config _ s.bridge (Between loads s.seen)
    (fun b => Orderly loads (watch config loads s look).seen s.bridge.log b ∧
      Welcome loads (watch config loads s look).seen
        { look.tick with loading := marker loads (watch config loads s look).seen } b)
    (Orderly loads (watch config loads s look).seen s.bridge.log) _ _
    ?_ ?_ (fun _ _ h move => move_orderly h move) ?_ (fun _ h => h.logged)
    (fun _ _ h leaves => leave_logged h leaves) h.between ?_
  · intro between
    exact ⟨checkLoading_orderly given rfl inside since between arrival,
      checkLoading_welcome rfl connection⟩
  · rintro b b' ⟨orderly, welcome⟩ accepting
    exact accepting_orderly orderly welcome accepting
  · intro b orderly
    exact ⟨orderly.running, orderly.ordered, orderly.lastLoading⟩
  · intro _
    exact ⟨[], by simp, by simp⟩

theorem start_ready (loads : List Load) (ending : Except ReadError Unit) :
    Ready loads (start loads ending) := by
  constructor
  · exact Nat.zero_le _
  · intro _
    refine ⟨new_running (allPages loads) ending, ?_, rfl⟩
    exact (if_neg (by simp [start, new])).mpr fun _ => Nat.zero_le _

/-- If all markers come in time, the order of the loads is kept. -/
theorem keepsOrder_of_timely (config : Config) (given : config.loadingMarker = true)
    (loads : List Load) (ending : Except ReadError Unit) (looks : List Look)
    (timely : Along (watch config loads) (Timely config loads) (start loads ending) looks) :
    KeepsOrder config loads ending looks := by
  have keeps : ∀ s look, Ready loads s → Timely config loads s look →
      Ready loads (watch config loads s look) := by
    intro s look ready inTime
    exact ⟨Nat.min_le_right _ _, (watch_kept given ready inTime).between⟩
  refine along_of_invariant keeps ?_ (start_ready loads ending) timely
  intro s look ready inTime e he
  obtain ⟨more, split, comply⟩ := (watch_kept given ready inTime).always
  rw [split, List.drop_left] at he
  exact comply e he

theorem shortStream_isStream : IsStream Page.isBos shortStream :=
  ⟨identification, [comment, setup, audio], rfl, by decide, by decide⟩

def firstLoad : Load := ⟨"a".toList, shortStream, by decide, Or.inr shortStream_isStream⟩

def secondLoad : Load := ⟨"b".toList, shortStream, by decide, Or.inr shortStream_isStream⟩

def takes (newer : Nat) : Look := ⟨newer, { quiet with ready := true }⟩

/-- A client connects and gets some bytes of the audio page. -/
def tunesIn (newer : Nat) : Look :=
  ⟨newer, { quiet with accept := .socket player, write := .ok 10 }⟩

/-- The second track is loaded while the first one is played. -/
def skipped : List Look := [takes 1, takes 0, takes 0, takes 0, tunesIn 0, takes 1]

theorem skipped_keepsOrder :
    (run (watch unpaced [firstLoad, secondLoad]) (start [firstLoad, secondLoad] (.ok ()))
      skipped).bridge.log.length = 3 ∧
    KeepsOrder unpaced [firstLoad, secondLoad] (.ok ()) skipped := by
  refine ⟨by decide +kernel, keepsOrder_of_timely unpaced rfl _ _ skipped ?_⟩
  refine ⟨?_, ?_, ?_, ?_, ?_, ?_, trivial⟩ <;> decide +kernel

/-- The marker of a load is seen behind the first page of its stream: the second one is
discarded. With the same track loaded again, a client gets what is left of the first load. -/
theorem untimely_markers :
    ¬ KeepsOrder unpaced [firstLoad] (.ok ()) [takes 0, takes 1] ∧
    ¬ KeepsOrder unpaced [firstLoad, firstLoad] (.ok ())
      [takes 1, takes 0, takes 0, takes 0, tunesIn 1] := by
  constructor
  · rintro ⟨-, late, -⟩
    have discarded := late (.discarded 1) (by decide +kernel)
    revert discarded
    decide +kernel
  · rintro ⟨-, -, -, -, again, -⟩
    have sent := again (.sent 3 (audio.bytes.take 10)) (by decide +kernel)
    revert sent
    decide +kernel

end LoadingMarker
