import SqueezeboxConnect.Runs
import SqueezeboxConnect.ClientStream

/-!
# Generations of streams

Each logical stream whose three header packets have come in is announced: the
bridge counts a generation and writes it to the stream marker, with the serial
number of the stream. It notices this by comparing the number of header packets
before and after a page. A stream with all three of them on its first page goes
unnoticed where the stream before it was complete as well.
-/

namespace StreamGenerations

open Runs Outcomes Streams OggPage HeaderTracker BridgeLoop Bridge BridgeMoves ClientStream

variable {b b' : Bridge} {p : Page} {pages : List Page}

section Accepting

variable (config : Config) (tick : Tick)

/-- A round up to the point where it looks for a page. -/
def waiting (b : Bridge) : Except Bridge Bridge :=
  (b.checkLoading config tick).acceptClient tick >>= hold

/-- The page that is taken there and that the headers accept. -/
def takenPage (b : Bridge) : Option Page :=
  if b.pending.isSome || !tick.ready then none
  else
    match b.queue with
    | [] => none
    | p :: _ =>
      if b.discardUntilBos && !p.isBos then none
      else
        match b.headers.observe p with
        | .error _ => none
        | .ok _ => some p

/-- The page that `observe` accepts in a round. -/
def acceptedPage (b : Bridge) : Option Page :=
  if b.exit.isSome then none
  else
    match waiting config tick b with
    | .error _ => none
    | .ok b => takenPage tick b

/-- What the rest of a round does not change. -/
structure SameTracker (b b' : Bridge) : Prop where
  headers_eq : b'.headers = b.headers
  generation_eq : b'.generation = b.generation
  marker_eq : b'.streamMarker = b.streamMarker

theorem sameTracker_refl (b : Bridge) : SameTracker b b := ⟨rfl, rfl, rfl⟩

theorem sameTracker_trans {b'' : Bridge} (h : SameTracker b b') (h' : SameTracker b' b'') :
    SameTracker b b'' :=
  ⟨h'.headers_eq.trans h.headers_eq, h'.generation_eq.trans h.generation_eq,
    h'.marker_eq.trans h.marker_eq⟩

theorem checkLoading_tracker (b : Bridge) : SameTracker b (b.checkLoading config tick) := by
  rcases checkLoading_cases config tick b with ⟨same, -⟩ | ⟨text, -, -, -, starts⟩
  · rw [same]
    exact sameTracker_refl b
  · rw [starts]
    exact ⟨rfl, rfl, rfl⟩

theorem acceptClient_tracker (b : Bridge) :
    Yields (b.acceptClient tick) (SameTracker b) (SameTracker b) := by
  rw [acceptClient]
  split
  · exact sameTracker_refl b
  · split
    · exact sameTracker_refl b
    · exact ⟨rfl, rfl, rfl⟩
    · split
      · exact sameTracker_refl b
      · split
        · exact ⟨rfl, rfl, rfl⟩
        · split <;> exact ⟨rfl, rfl, rfl⟩

theorem waiting_tracker (b : Bridge) :
    Yields (waiting config tick b) (SameTracker b) (SameTracker b) := by
  have loading := checkLoading_tracker config tick b
  refine yields_bind (SameTracker b) ?_ ?_
  · exact yields_mono (acceptClient_tracker tick _) (fun _ => sameTracker_trans loading)
      fun _ => sameTracker_trans loading
  · intro m same
    rw [hold]
    split <;> exact same

theorem forward_tracker (b : Bridge) :
    SameTracker b (b.forward config tick) ∧ (b.forward config tick).exit = b.exit := by
  have writes : ∀ (b : Bridge) (p : Page) (c : Connection),
      SameTracker b (b.writePending tick p c) ∧ (b.writePending tick p c).exit = b.exit := by
    intro b p c
    rw [writePending]
    split
    · split
      · rw [advance]
        dsimp only
        split <;> exact ⟨⟨rfl, rfl, rfl⟩, rfl⟩
      · exact ⟨⟨rfl, rfl, rfl⟩, rfl⟩
    all_goals exact ⟨⟨rfl, rfl, rfl⟩, rfl⟩
  rw [forward]
  split
  · split
    · dsimp only
      split
      · exact ⟨⟨rfl, rfl, rfl⟩, rfl⟩
      · obtain ⟨same, exit⟩ := writes { b with timeline := _ } _ _
        exact ⟨⟨same.headers_eq, same.generation_eq, same.marker_eq⟩, exit⟩
    · exact writes b _ _
  · exact ⟨⟨rfl, rfl, rfl⟩, rfl⟩

/-- What an accepted page does to the headers, the generation and the marker. -/
structure Observes (b : Bridge) (p : Page) (b' : Bridge) : Prop where
  observed : b.headers.observe p = .ok b'.headers
  completes : b.headers.packets ≠ 3 ∧ b'.headers.packets = 3 →
    b'.generation = b.generation + 1 ∧ (b'.exit = some .marker ∨
      b'.streamMarker = ((b'.headers.serial.filter fun _ => config.marker).map
        (Prod.mk b'.generation)).or b.streamMarker)
  continues : ¬ (b.headers.packets ≠ 3 ∧ b'.headers.packets = 3) →
    b'.generation = b.generation ∧ b'.streamMarker = b.streamMarker

/-- What a round does with the page it accepts, or without one. -/
def Tracks (page : Option Page) (b b' : Bridge) : Prop :=
  match page with
  | none => SameTracker b b'
  | some p => Observes config b p b'

theorem handlePage_tracks {rest : List Page} {headers : Headers}
    (wanted : ¬ (b.discardUntilBos && !p.isBos) = true)
    (observed : b.headers.observe p = .ok headers) :
    Yields (b.handlePage config tick p rest) (Observes config b p) (Observes config b p) := by
  obtain ⟨same, generation, marker, -⟩ := beginStream_frame (b.takePage p rest) p
  have observed' : ((b.takePage p rest).beginStream p).headers.observe p = .ok headers := by
    rw [same]
    exact observed
  simp only [handlePage, if_neg wanted, observed']
  refine yields_bind (Observes config b p) ?_ ?_
  · split
    · rename_i ready
      have complete : b.headers.packets ≠ 3 ∧ headers.packets = 3 := by simpa using ready
      refine yields_mono (announce_spec config tick _ headers) ?_ ?_
      · rintro b' ⟨m, rfl, written⟩
        rw [generation, marker] at written
        refine ⟨observed, fun _ => ⟨congrArg (· + 1) generation, Or.inr ?_⟩,
          fun incomplete => absurd complete incomplete⟩
        simp only [generation]
        exact written
      · rintro b' rfl
        exact ⟨observed, fun _ => ⟨congrArg (· + 1) generation, Or.inl rfl⟩,
          fun incomplete => absurd complete incomplete⟩
    · rename_i notReady
      have incomplete : ¬ (b.headers.packets ≠ 3 ∧ headers.packets = 3) := by
        simpa using notReady
      exact ⟨observed, fun complete => absurd complete incomplete, fun _ => ⟨generation, marker⟩⟩
  · intro b' h
    rw [keepPage]
    split
    · exact ⟨h.observed, h.completes, h.continues⟩
    · exact h

theorem receive_tracks (b : Bridge) :
    Yields (b.receive config tick) (Tracks config (takenPage tick b) b)
      (Tracks config (takenPage tick b) b) := by
  rw [receive, takenPage]
  by_cases pending : b.pending.isSome = true
  · rw [if_pos pending, if_pos (by simp [pending])]
    exact sameTracker_refl b
  · rw [if_neg pending]
    by_cases ready : tick.ready = true
    · rw [if_neg (by simp [ready]), if_neg (by simp [pending, ready])]
      split
      · rename_i p rest queue
        rw [queue]
        dsimp only
        by_cases discards : (b.discardUntilBos && !p.isBos) = true
        · rw [if_pos discards, handlePage, if_pos discards]
          exact ⟨rfl, rfl, rfl⟩
        · rw [if_neg discards]
          cases observed : b.headers.observe p with
          | ok headers => exact handlePage_tracks config tick discards observed
          | error e =>
            obtain ⟨same, generation, marker, -⟩ := beginStream_frame (b.takePage p rest) p
            have observed' : ((b.takePage p rest).beginStream p).headers.observe p = .error e := by
              rw [same]
              exact observed
            simp only [handlePage, if_neg discards, observed']
            exact ⟨same, generation, marker⟩
      · rename_i queue
        rw [queue]
        split <;> exact ⟨rfl, rfl, rfl⟩
    · rw [if_pos (by simp [ready]), if_pos (by simp [ready])]
      exact sameTracker_refl b

theorem tracks_before {page : Option Page} {m : Bridge} (same : SameTracker b m)
    (tracks : Tracks config page m b') : Tracks config page b b' := by
  cases page with
  | none => exact sameTracker_trans same tracks
  | some p =>
    obtain ⟨observed, completes, continues⟩ := tracks
    rw [same.headers_eq] at observed completes continues
    rw [same.generation_eq, same.marker_eq] at completes continues
    exact ⟨observed, completes, continues⟩

theorem tracks_after {page : Option Page} {m : Bridge} (tracks : Tracks config page b m)
    (same : SameTracker m b') (exit : b'.exit = m.exit) : Tracks config page b b' := by
  cases page with
  | none => exact sameTracker_trans tracks same
  | some p =>
    obtain ⟨observed, completes, continues⟩ := tracks
    rw [← same.headers_eq] at observed completes continues
    rw [← same.generation_eq, ← same.marker_eq] at completes continues
    rw [← exit] at completes
    exact ⟨observed, completes, continues⟩

theorem step_tracks (b : Bridge) :
    Tracks config (acceptedPage config tick b) b (step config b tick) := by
  rw [acceptedPage]
  by_cases running : b.exit = none
  · have whole : b.round config tick = waiting config tick b >>= fun b =>
        b.receive config tick >>= fun b => pure (b.forward config tick) := by
      simp only [Bridge.round, waiting, bind_assoc]
    have before := waiting_tracker config tick b
    rw [if_neg (by simp [running])]
    refine step_yields config tick b running ?_
    rw [whole]
    cases waited : waiting config tick b with
    | error m =>
      rw [waited] at before
      exact before
    | ok m =>
      rw [waited] at before
      rw [yields_ok_bind]
      refine yields_bind (Tracks config (takenPage tick m) b) ?_ ?_
      · exact yields_mono (receive_tracks config tick m) (fun _ => tracks_before config before)
          fun _ => tracks_before config before
      · intro b' tracks
        obtain ⟨same, exit⟩ := forward_tracker config tick b'
        exact tracks_after config tracks same exit
  · have ended : b.exit.isSome = true := Option.isSome_iff_ne_none.mpr running
    rw [step, if_pos ended, if_pos ended]
    exact sameTracker_refl b

end Accepting

section Counting

variable (config : Config)

/-- The logical streams whose three header packets have come in. -/
def completed (pages : List Page) : List (List Page) :=
  (streams Page.isBos pages).filter fun stream => 3 ≤ headerPackets stream

/-- What the stream marker has to hold: the last of them, with its number. -/
def lastMarked (pages : List Page) : Option (Nat × Nat) :=
  if config.marker then
    (completed pages).getLast?.bind fun stream =>
      stream.head?.map fun p => ((completed pages).length, p.serial)
  else none

/-- A stream that is complete with its first page, behind a complete stream. -/
def Skipped (pages : List Page) : Prop :=
  ∃ before p, before ++ [p] <+: pages ∧ p.isBos = true ∧
    3 ≤ headerPackets (current Page.isBos before) ∧ 3 ≤ headerPackets [p]

/-- The bridge with the pages that have been accepted so far. -/
def traced (s : List Page × Bridge) (tick : Tick) : List Page × Bridge :=
  (s.1 ++ (acceptedPage config tick s.2).toList, step config s.2 tick)

/-- Every complete stream has been counted, and the marker names the last one. The
bridge ends where the marker cannot be written. -/
def Numbered (s : List Page × Bridge) : Prop :=
  s.2.generation = (completed s.1).length ∧
    (s.2.exit ≠ some .marker → s.2.streamMarker = lastMarked config s.1)

theorem completed_bos (pages : List Page) (bos : p.isBos = true) :
    completed (pages ++ [p]) = completed pages ++ if 3 ≤ headerPackets [p] then [[p]] else [] := by
  rw [completed, streams_mark Page.isBos pages bos, List.filter_append, completed]
  simp only [List.filter_cons, List.filter_nil, decide_eq_true_eq]

theorem completed_next (inside : current Page.isBos pages ≠ []) (next : p.isBos = false) :
    ∃ front, completed pages = front ++ (if 3 ≤ headerPackets (current Page.isBos pages)
        then [current Page.isBos pages] else []) ∧
      completed (pages ++ [p]) = front ++ if 3 ≤ headerPackets (current Page.isBos pages ++ [p])
        then [current Page.isBos pages ++ [p]] else [] := by
  obtain ⟨front, split, split'⟩ := streams_unmarked Page.isBos inside next
  refine ⟨front.filter fun stream => 3 ≤ headerPackets stream, ?_, ?_⟩
  · rw [completed, split, List.filter_append]
    simp only [List.filter_cons, List.filter_nil, decide_eq_true_eq]
  · rw [completed, split', List.filter_append]
    simp only [List.filter_cons, List.filter_nil, decide_eq_true_eq]

theorem skipped_concat (pages : List Page) (p : Page) :
    Skipped (pages ++ [p]) ↔ Skipped pages ∨ (p.isBos = true ∧
      3 ≤ headerPackets (current Page.isBos pages) ∧ 3 ≤ headerPackets [p]) := by
  constructor
  · rintro ⟨before, q, initial, found⟩
    rcases List.prefix_concat_iff.mp initial with same | earlier
    · obtain ⟨rfl, rfl⟩ := List.append_inj' same rfl |>.imp_right List.singleton_inj.mp
      exact Or.inr found
    · exact Or.inl ⟨before, q, earlier, found⟩
  · rintro (⟨before, q, initial, found⟩ | found)
    · exact ⟨before, q, initial.trans (List.prefix_append pages [p]), found⟩
    · exact ⟨pages, p, List.prefix_refl _, found⟩

theorem skipped_mono {more : List Page} (initial : pages <+: more) (skipped : Skipped pages) :
    Skipped more := by
  obtain ⟨before, p, begins, found⟩ := skipped
  exact ⟨before, p, begins.trans initial, found⟩

/-- The counter falls behind for good with the first stream that is skipped. -/
structure Counts (pages : List Page) (b : Bridge) : Prop where
  follows : Follows (current Page.isBos pages) b.headers
  generation_le : b.generation ≤ (completed pages).length
  generation_iff : b.generation = (completed pages).length ↔ ¬ Skipped pages
  marker_eq : ¬ Skipped pages → b.exit ≠ some .marker → b.streamMarker = lastMarked config pages

theorem counts_new (producer : List Page × Except ReadError Unit) :
    Counts config [] (Bridge.new producer) := by
  have clean : ¬ Skipped [] := by
    rintro ⟨before, p, initial, -⟩
    exact absurd (List.prefix_nil.mp initial) (by simp)
  refine ⟨⟨holds_new none, rfl⟩, Nat.zero_le _, ⟨fun _ => clean, fun _ => rfl⟩, ?_⟩
  intro _ _
  simp [lastMarked, completed, Bridge.new]

section

variable (h : Counts config pages b) (running : b.exit = none)
include h running

/-- A page that completes no stream changes neither the counter nor the marker. -/
theorem counts_continue (follows : Follows (current Page.isBos (pages ++ [p])) b'.headers)
    (count : (completed (pages ++ [p])).length = (completed pages).length)
    (marked : lastMarked config (pages ++ [p]) = lastMarked config pages)
    (clean : Skipped (pages ++ [p]) ↔ Skipped pages) (generation : b'.generation = b.generation)
    (marker : b'.streamMarker = b.streamMarker) : Counts config (pages ++ [p]) b' := by
  refine ⟨follows, ?_, ?_, ?_⟩
  · rw [generation, count]
    exact h.generation_le
  · rw [generation, count, clean]
    exact h.generation_iff
  · intro notSkipped _
    rw [marker, marked]
    exact h.marker_eq (fun skipped => notSkipped (clean.mpr skipped)) (by simp [running])

theorem counts_complete {earlier : List (List Page)}
    (follows : Follows (current Page.isBos (pages ++ [p])) b'.headers)
    (before : completed pages = earlier)
    (after : completed (pages ++ [p]) = earlier ++ [current Page.isBos (pages ++ [p])])
    (begun : (current Page.isBos (pages ++ [p])).head? ≠ none)
    (clean : Skipped (pages ++ [p]) ↔ Skipped pages) (generation : b'.generation = b.generation + 1)
    (marker : b'.exit = some .marker ∨ b'.streamMarker =
      ((b'.headers.serial.filter fun _ => config.marker).map (Prod.mk b'.generation)).or
        b.streamMarker) :
    Counts config (pages ++ [p]) b' := by
  have length : (completed (pages ++ [p])).length = (completed pages).length + 1 := by
    simp [before, after]
  refine ⟨follows, ?_, ?_, ?_⟩
  · have bound := h.generation_le
    omega
  · rw [generation, length, Nat.add_right_cancel_iff, clean]
    exact h.generation_iff
  · intro notSkipped written
    have skips : ¬ Skipped pages := fun skipped => notSkipped (clean.mpr skipped)
    have counted := h.generation_iff.mpr skips
    have old := h.marker_eq skips (by simp [running])
    obtain ⟨first, head⟩ := Option.ne_none_iff_exists'.mp begun
    rw [marker.resolve_left written, follows.serial_eq, head, old]
    by_cases path : config.marker = true
    · simp only [lastMarked, path, if_true, after, generation, counted, before]
      simp [head]
    · simp [lastMarked, path]

theorem observes_bos (bos : p.isBos = true) (observes : Observes config b p b') :
    Counts config (pages ++ [p]) b' := by
  have packets := h.follows.packets_eq
  have few := h.follows.packets_le
  have stream := current_mark Page.isBos pages bos
  have follows := observe_bos bos observes.observed
  have packets' := follows.packets_eq
  have few' := follows.packets_le
  have split := completed_bos pages bos
  have skips := skipped_concat pages p
  rw [← stream] at follows
  by_cases complete : b'.headers.packets = 3
  · rw [if_pos (by omega)] at split
    by_cases had : b.headers.packets = 3
    · -- the edge is missed
      obtain ⟨generation, -⟩ := observes.continues fun edge => edge.1 had
      have bound := h.generation_le
      have skipped : Skipped (pages ++ [p]) := skips.mpr (Or.inr ⟨bos, by omega, by omega⟩)
      have length := congrArg List.length split
      simp only [List.length_append, List.length_singleton] at length
      refine ⟨follows, by omega, ?_, fun clean => absurd skipped clean⟩
      exact ⟨fun same => by omega, fun clean => absurd skipped clean⟩
    · obtain ⟨generation, marker⟩ := observes.completes ⟨had, complete⟩
      refine counts_complete config h running follows rfl ?_ ?_ ?_ generation marker
      · rw [split, stream]
      · simp [stream]
      · rw [skips]
        exact or_iff_left fun found => by omega
  · rw [if_neg (by omega), List.append_nil] at split
    obtain ⟨generation, marker⟩ := observes.continues fun edge => complete edge.2
    refine counts_continue config h running follows ?_ ?_ ?_ generation marker
    · rw [split]
    · rw [lastMarked, split, ← lastMarked]
    · rw [skips]
      exact or_iff_left fun found => by omega

/-- A page that continues a stream, which is complete already, becomes complete or
stays incomplete. -/
theorem observes_next (next : p.isBos = false) (observes : Observes config b p b') :
    Counts config (pages ++ [p]) b' := by
  have packets := h.follows.packets_eq
  have few := h.follows.packets_le
  obtain ⟨inside, follows⟩ := observe_next h.follows next observes.observed
  have stream := current_unmarked Page.isBos inside next
  have packets' := follows.packets_eq
  have few' := follows.packets_le
  have same : (current Page.isBos pages ++ [p]).head? = (current Page.isBos pages).head? :=
    List.head?_append_of_ne_nil _ inside
  have clean : Skipped (pages ++ [p]) ↔ Skipped pages := by
    rw [skipped_concat]
    exact or_iff_left fun found => by simp [next] at found
  obtain ⟨front, split, split'⟩ := completed_next inside next
  rw [← stream] at follows
  by_cases had : b.headers.packets = 3
  · have had' : 3 ≤ headerPackets (current Page.isBos pages) := by omega
    have kept := headerPackets_complete had' [p]
    obtain ⟨generation, marker⟩ := observes.continues fun edge => edge.1 had
    rw [if_pos had'] at split
    rw [if_pos kept] at split'
    refine counts_continue config h running follows ?_ ?_ clean generation marker
    · simp [split, split']
    · simp [lastMarked, split, split', same]
  · rw [if_neg (by omega), List.append_nil] at split
    by_cases complete : b'.headers.packets = 3
    · obtain ⟨generation, marker⟩ := observes.completes ⟨had, complete⟩
      rw [if_pos (by omega)] at split'
      refine counts_complete config h running follows split ?_ ?_ clean generation marker
      · rw [split', stream]
      · simp [stream]
    · obtain ⟨generation, marker⟩ := observes.continues fun edge => complete edge.2
      rw [if_neg (by omega), List.append_nil] at split'
      refine counts_continue config h running follows ?_ ?_ clean generation marker
      · rw [split, split']
      · rw [lastMarked, split', ← split, ← lastMarked]

theorem observes_counts (observes : Observes config b p b') : Counts config (pages ++ [p]) b' := by
  cases bos : p.isBos with
  | true => exact observes_bos config h running bos observes
  | false => exact observes_next config h running bos observes

end

theorem traced_counts (s : List Page × Bridge) (tick : Tick) (h : Counts config s.1 s.2) :
    Counts config (traced config s tick).1 (traced config s tick).2 := by
  by_cases running : s.2.exit = none
  · have tracks := step_tracks config tick s.2
    rw [traced]
    cases page : acceptedPage config tick s.2 with
    | none =>
      rw [page] at tracks
      simp only [Option.toList_none, List.append_nil]
      refine ⟨?_, ?_, ?_, ?_⟩
      · rw [tracks.headers_eq]
        exact h.follows
      · rw [tracks.generation_eq]
        exact h.generation_le
      · rw [tracks.generation_eq]
        exact h.generation_iff
      · intro clean _
        rw [tracks.marker_eq]
        exact h.marker_eq clean (by simp [running])
    | some p =>
      rw [page] at tracks
      exact observes_counts config h running tracks
  · have ended : s.2.exit.isSome = true := Option.isSome_iff_ne_none.mpr running
    have same : traced config s tick = s := by simp [traced, acceptedPage, step, ended]
    rw [same]
    exact h

theorem run_counts (producer : List Page × Except ReadError Unit) (ticks : List Tick) :
    Counts config (run (traced config) ([], Bridge.new producer) ticks).1
      (run (traced config) ([], Bridge.new producer) ticks).2 :=
  run_invariant' (traced_counts config) ticks (counts_new config producer)

theorem run_accepted_isPrefix (s : List Page × Bridge) (ticks : List Tick) :
    s.1 <+: (run (traced config) s ticks).1 := by
  have grows : ∀ (s' : List Page × Bridge) (tick : Tick), s.1 <+: s'.1 →
      s.1 <+: (traced config s' tick).1 :=
    fun s' _ initial => initial.trans (List.prefix_append s'.1 _)
  exact run_invariant' grows ticks (List.prefix_refl _)

/-- At every point of a run the streams are numbered and marked as they become
complete, unless one with all its headers on the first page follows another
complete stream. -/
theorem generations_iff (producer : List Page × Except ReadError Unit) (ticks : List Tick) :
    (∀ front, front <+: ticks →
      Numbered config (run (traced config) ([], Bridge.new producer) front)) ↔
    ¬ Skipped (run (traced config) ([], Bridge.new producer) ticks).1 := by
  constructor
  · intro numbered
    exact (run_counts config producer ticks).generation_iff.mp
      (numbered ticks (List.prefix_refl _)).1
  · rintro clean front ⟨back, rfl⟩
    have counts := run_counts config producer front
    have earlier : ¬ Skipped (run (traced config) ([], Bridge.new producer) front).1 := by
      rw [run_append] at clean
      exact fun skipped => clean (skipped_mono (run_accepted_isPrefix config _ back) skipped)
    exact ⟨counts.generation_iff.mpr earlier, counts.marker_eq earlier⟩

end Counting

/-- A stream with its three headers on one page. -/
def allHeaders : Page :=
  ⟨[0x4F, 0x67, 0x67, 0x53, 0, 2, 0, 0, 0, 0, 0, 0, 0, 0, 1, 0, 0, 0, 0, 0, 0, 0, 0, 0, 0, 0, 3,
    16, 16, 16] ++ headerPacket 1 ++ headerPacket 3 ++ headerPacket 5, by decide, by decide⟩

/-- The second of two such streams gets neither a number nor a marker of its own. -/
theorem secondStream_unnumbered :
    ¬ ∀ front, front <+: List.replicate 2 { quiet with ready := true } →
      Numbered unpaced
        (run (traced unpaced) ([], Bridge.new ([allHeaders, allHeaders], .ok ())) front) := by
  intro numbered
  have count := (numbered _ (List.prefix_refl _)).1
  revert count
  decide +kernel

end StreamGenerations
