import SqueezeboxConnect.ArtworkRuns

/-!
# Artwork of a window that is opened again

The Now Playing window and its artwork object each have a key. Closing the
window cancels the lookup and takes the key of the artwork object, while the
window keeps its own. An update looks for artwork only where the key of the
window is another one, and only with a title and an artist.
-/

namespace ArtworkReopening

open Runs ArtworkRuns

/-- The window with the lookups whose image could be shown, which the code does not keep. -/
structure Session where
  screen : NowPlaying := {}
  usable : List Lookup := []

/-- The timer calls `update` while it runs. -/
inductive Event where
  | show (d : Data) (loads : Bool)
  | timer (d : Data) (loads : Bool)
  | close
  | complete (place : Nat) (completion : Artwork.Completion) (loads : Bool)

def step (json : Bool) (s : Session) : Event → Session
  | .show d loads => { s with screen := s.screen.show d loads }
  | .timer d loads => if s.screen.timer then { s with screen := s.screen.update d loads } else s
  | .close => { s with screen := s.screen.close }
  | .complete place completion loads =>
    let called := (s.screen.artwork.complete json place completion).2
    { screen := s.screen.complete json place completion loads
      usable := s.usable ++ (called.filter fun _ => loads).toList }

section Properties

variable (n : NowPlaying) (s : Session)

/-- The window shows artwork of its key. -/
def Displayed : Prop := ∃ l, n.surface = some (.artwork l) ∧ l.key = n.key

/-- A lookup for the key is waited for, and its answer will be taken. -/
def InProgress : Prop := ∃ p ∈ n.artwork.waiting, n.artwork.current p.1 ∧ p.1.key = n.key

/-- The lookup for the key was started and not cancelled, it waits for nothing any more, and it has
not brought an image that can be shown. -/
def Fruitless : Prop :=
  s.screen.artwork.key = s.screen.key ∧ ¬ InProgress s.screen ∧
    ∀ l ∈ s.usable, s.screen.artwork.current l = false

/-- The timer runs while the window is open; the labels show what the last update has brought. -/
def NotLost : Prop :=
  s.screen.timer = true → s.screen.title ≠ [] → s.screen.artist ≠ [] →
    Displayed s.screen ∨ InProgress s.screen ∨ Fruitless s

/-- An update with a title and an artist for the key that the window has: the artwork is displayed,
or it was looked for and the lookup was not cancelled. -/
def Reached (d : Data) : Prop :=
  Named d → some (keyOf d) = n.key → Displayed n ∨ n.artwork.key = n.key

def Kept (s : Session) : Event → Prop
  | .show d _ => Reached s.screen d
  | .timer d _ => s.screen.timer = true → Reached s.screen d
  | .close => True
  | .complete .. => True

end Properties

/-- An answer that will be taken is for the key of the window, and an image that could be shown is
on display as long as its lookup is the current one. -/
structure Inv (s : Session) : Prop where
  unopened : s.screen.window = false → s.screen.key = none ∧ s.screen.timer = false
  artwork : ArtworkRuns.Inv s.screen.artwork
  keyed : ∀ p ∈ s.screen.artwork.waiting, s.screen.artwork.current p.1 = true →
    p.1.key = s.screen.key
  shown : ∀ l ∈ s.usable, l.generation ≤ s.screen.artwork.generation ∧
    (s.screen.artwork.current l = true → Displayed s.screen)

variable {a : Artwork} {l : Lookup} {n : NowPlaying} {s : Session} {d : Data} {json : Bool}

theorem current_iff : a.current l = true ↔ l.generation = a.generation ∧ l.key = a.key := by
  simp [Artwork.current]

/-- In the end it comes down to the two keys. -/
theorem notLost_iff_keys (h : Inv s) :
    NotLost s ↔ (s.screen.timer = true → s.screen.title ≠ [] ∧ s.screen.artist ≠ [] →
      Displayed s.screen ∨ s.screen.artwork.key = s.screen.key) := by
  rw [NotLost, and_imp]
  refine forall_congr' fun _ => forall_congr' fun _ => forall_congr' fun _ => or_congr_right' ?_
  intro hidden
  constructor
  · rintro (⟨p, _, current, key⟩ | fruitless)
    · exact (current_iff.mp current).2.symm.trans key
    · exact fruitless.1
  · intro same
    refine or_iff_not_imp_left.mpr fun idle => ⟨same, idle, fun l usable => ?_⟩
    by_contra current
    exact hidden ((h.shown l usable).2 (by simpa using current))

theorem Inv.created (h : Inv s) (used : s.screen.key ≠ none ∨ s.screen.timer = true) :
    s.screen.window = true := by
  by_contra closed
  obtain ⟨key, timer⟩ := h.unopened (by simpa using closed)
  rcases used with keyed | runs
  · exact keyed key
  · exact absurd (timer.symm.trans runs) (by decide)

section Updates

theorem not_current_later (past : l.generation ≤ a.generation) {a' : Artwork}
    (later : a.generation < a'.generation) : a'.current l ≠ true := by
  intro current
  have := (current_iff.mp current).1
  omega

/-- A lookup begins another generation, under the key of the update. -/
theorem renewed_spec (a : Artwork) (d : Data) :
    a.generation < (renewed a d).generation ∧
      (renewed a d).key = (if Named d then some (keyOf d) else none) ∧
      ∀ p ∈ (renewed a d).waiting, p ∈ a.waiting ∨ p.1.key = some (keyOf d) := by
  rw [renewed]
  split
  · next named =>
    have goes : ¬ ((some (d.title.getD [])).getD [] = [] ∨ (some (d.artist.getD [])).getD [] = [] ∨
        some (keyOf d) = a.cancel.key) := by
      rintro (title | artist | key)
      · exact named.1 title
      · exact named.2 artist
      · cases key
    have member : ∀ {l : Lookup} {stage : Stage}, l.key = some (keyOf d) →
        ∀ p ∈ a.waiting ++ [(l, stage)], p ∈ a.waiting ∨ p.1.key = some (keyOf d) := by
      intro l stage own p inside
      rcases List.mem_append.mp inside with before | last
      · exact .inl before
      · rw [List.mem_singleton.mp last]
        exact .inr own
    have later : a.generation < a.generation + 1 + 1 := by omega
    rw [Artwork.lookup, if_neg goes]
    cases validUrl d.artworkUrl with
    | none => exact ⟨later, rfl, member rfl⟩
    | some url =>
      dsimp only [Artwork.fetchPicture]
      rw [if_pos (by simp [Artwork.current, Artwork.begin])]
      exact ⟨later, rfl, member rfl⟩
  · exact ⟨Nat.lt_succ_self _, rfl, fun _ => .inl⟩

/-- Another generation, in which only lookups for the key are new. -/
theorem Inv.renew (h : Inv s) (unopened : n.window = false → n.key = none ∧ n.timer = false)
    (artwork : ArtworkRuns.Inv n.artwork)
    (later : s.screen.artwork.generation < n.artwork.generation)
    (waiting : ∀ p ∈ n.artwork.waiting, p ∈ s.screen.artwork.waiting ∨ p.1.key = n.key) :
    Inv { s with screen := n } where
  unopened := unopened
  artwork := artwork
  keyed p member current := by
    rcases waiting p member with before | own
    · exact absurd current (not_current_later (h.artwork.begun p before).2.1 later)
    · exact own
  shown l usable := by
    have past := (h.shown l usable).1
    exact ⟨past.trans later.le, fun current => absurd current (not_current_later past later)⟩

theorem Inv.close (h : Inv s) : Inv { s with screen := s.screen.close } :=
  h.renew (fun closed => ⟨(h.unopened closed).1, rfl⟩) h.artwork.cancel (Nat.lt_succ_self _)
    fun _ => .inl

theorem Inv.updated (h : Inv s) (updated : Updated s.screen d n) (window : n.window = true) :
    Inv { s with screen := n } := by
  have opened : n.window = false → n.key = none ∧ n.timer = false := by
    rw [window]
    nofun
  by_cases same : some (keyOf d) = s.screen.key
  · obtain ⟨artwork, surface⟩ := updated.same same
    have key := updated.key.trans same
    refine ⟨opened, ?_, ?_, ?_⟩
    · rw [artwork]
      exact h.artwork
    · rw [artwork, key]
      exact h.keyed
    · rw [artwork, Displayed, surface (h.created (.inl (by simp [← same]))), key]
      exact h.shown
  · obtain ⟨later, _, waiting⟩ := renewed_spec s.screen.artwork d
    rw [← updated.other same] at later waiting
    refine h.renew opened (updated.steered.keeps h.artwork).1 later ?_
    rw [updated.key]
    exact waiting

/-- After an update of an open window the artwork is not lost exactly if it was within reach. -/
theorem notLost_updated (h : Inv s) (updated : Updated s.screen d n) (window : n.window = true)
    (timer : n.timer = true) : NotLost { s with screen := n } ↔ Reached s.screen d := by
  rw [notLost_iff_keys (h.updated updated window)]
  dsimp only
  rw [updated.labels, Reached]
  by_cases same : some (keyOf d) = s.screen.key
  · obtain ⟨artwork, surface⟩ := updated.same same
    rw [Displayed, artwork, surface (h.created (.inl (by simp [← same]))), updated.key.trans same]
    exact ⟨fun after named _ => after timer named, fun reached _ named => reached named same⟩
  · refine iff_of_true (fun _ named => .inr ?_) fun _ own => absurd own same
    rw [updated.other same, (renewed_spec s.screen.artwork d).2.1, if_pos named, updated.key]

end Updates

section Answers

variable {place : Nat} {completion : Artwork.Completion} {loads : Bool}

/-- An answer brings no other lookup. -/
theorem Inv.answer (h : Inv s) {result : Artwork × Option Lookup}
    (answer : Answer s.screen.artwork place result) :
    Inv { s with screen := { s.screen with artwork := result.1 } } ∧
      result.1.key = s.screen.artwork.key := by
  have frame : result.1.generation = s.screen.artwork.generation ∧
      result.1.key = s.screen.artwork.key ∧
      ∀ p ∈ result.1.waiting, ∃ q ∈ s.screen.artwork.waiting, q.1 = p.1 := by
    cases answer with
    | none => exact ⟨rfl, rfl, fun p member => ⟨p, member, rfl⟩⟩
    | dropped | fired =>
      exact ⟨rfl, rfl, fun p member => ⟨p, List.mem_of_mem_eraseIdx member, rfl⟩⟩
    | next found stage temp =>
      refine ⟨rfl, rfl, fun p member => ?_⟩
      rcases List.mem_append.mp member with before | last
      · exact ⟨p, List.mem_of_mem_eraseIdx before, rfl⟩
      · rw [List.mem_singleton.mp last]
        exact ⟨_, List.mem_of_getElem? found, rfl⟩
  obtain ⟨generation, key, waited⟩ := frame
  have same : ∀ l, result.1.current l = s.screen.artwork.current l := by
    intro l
    rw [Artwork.current, generation, key, Artwork.current]
  refine ⟨⟨h.unopened, (h.artwork.answer answer).1, fun p member current => ?_, ?_⟩, key⟩
  · obtain ⟨q, before, lookup⟩ := waited p member
    rw [same, ← lookup] at current
    rw [← lookup]
    exact h.keyed q before current
  · simp only [generation, same]
    exact h.shown

/-- An image that can be shown is on display. -/
theorem Inv.display (h : Inv s) (past : l.generation ≤ s.screen.artwork.generation)
    (key : l.key = s.screen.key) :
    Inv ⟨{ s.screen with surface := some (.artwork l) }, s.usable ++ [l]⟩ where
  unopened := h.unopened
  artwork := h.artwork
  keyed := h.keyed
  shown m usable := by
    refine ⟨?_, fun _ => ⟨l, rfl, key⟩⟩
    rcases List.mem_append.mp usable with before | last
    · exact (h.shown m before).1
    · rw [List.mem_singleton.mp last]
      exact past

/-- What an answer makes of the window; the artwork that is displayed stays so. -/
theorem Inv.complete (h : Inv s) : Inv (step json s (.complete place completion loads)) ∧
    ∃ artwork surface, (step json s (.complete place completion loads)).screen =
        { s.screen with artwork := artwork, surface := surface } ∧
      artwork.key = s.screen.artwork.key ∧
      (surface = s.screen.surface ∨ ∃ l, surface = some (.artwork l) ∧ l.key = s.screen.key) := by
  have answer := complete_answer s.screen.artwork json place completion
  obtain ⟨kept, key⟩ := h.answer answer
  rw [step, NowPlaying.complete]
  generalize s.screen.artwork.complete json place completion = result at answer kept key
  have silent : s.usable ++ [] = s.usable := List.append_nil _
  cases answer with
  | none | dropped | next => exact ⟨silent.symm ▸ kept, _, _, rfl, key, .inl rfl⟩
  | @fired l _ found current =>
    have member := List.mem_of_getElem? found
    have own := h.keyed _ member current
    dsimp only [NowPlaying.setArtwork]
    rw [if_neg (not_not.mpr own)]
    cases loads with
    | false => exact ⟨silent.symm ▸ kept, _, _, rfl, key, .inl rfl⟩
    | true =>
      exact ⟨kept.display (h.artwork.begun _ member).2.1 own, _, _, rfl, key, .inr ⟨l, rfl, own⟩⟩

/-- An answer loses nothing. -/
theorem notLost_complete (h : Inv s) (good : NotLost s) :
    NotLost (step json s (.complete place completion loads)) := by
  obtain ⟨kept, artwork, surface, frame, key, shown⟩ :=
    @Inv.complete s json place completion loads h
  rw [notLost_iff_keys h] at good
  rw [notLost_iff_keys kept, frame, key]
  intro timer named
  rcases shown with same | ⟨l, found, own⟩
  · rw [Displayed, same]
    exact good timer named
  · exact .inl ⟨l, found, own⟩

end Answers

theorem Inv.step (h : Inv s) (e : Event) : Inv (step json s e) := by
  cases e with
  | «show» d loads =>
    obtain ⟨updated, window⟩ := show_updated s.screen d loads
    exact h.updated updated window
  | timer d loads =>
    rw [ArtworkReopening.step]
    split
    · next timer =>
      obtain ⟨updated, window, _⟩ := update_updated s.screen d loads
      exact h.updated updated (window.trans (h.created (.inr timer)))
    · exact h
  | close => exact h.close
  | complete place completion loads => exact h.complete.1

theorem notLost_step (h : Inv s) (good : NotLost s) (e : Event) :
    NotLost (step json s e) ↔ Kept s e := by
  cases e with
  | «show» d loads =>
    obtain ⟨updated, window⟩ := show_updated s.screen d loads
    exact notLost_updated h updated window rfl
  | timer d loads =>
    rw [ArtworkReopening.step, Kept]
    split
    · next timer =>
      obtain ⟨updated, window, runs⟩ := update_updated s.screen d loads
      rw [imp_iff_right timer]
      exact notLost_updated h updated (window.trans (h.created (.inr timer))) (runs.trans timer)
    · next stopped => exact iff_of_true good fun timer => absurd timer stopped
  | close => exact iff_of_true nofun trivial
  | complete place completion loads =>
    exact iff_of_true (notLost_complete h good) trivial

theorem run_inv (json : Bool) (events : List Event) : Inv (run (step json) {} events) :=
  run_invariant' (fun _ e h => h.step e) events
    ⟨fun _ => ⟨rfl, rfl⟩, ⟨nofun, nofun, List.nodup_nil⟩, nofun, nofun⟩

/-- The artwork is not lost in a run exactly if every update with a title and an artist that brings
the key of the window finds the artwork displayed, or the same key in the artwork object. -/
theorem notLost_iff (json : Bool) (events : List Event) :
    (∀ front, front <+: events → NotLost (run (step json) {} front)) ↔
      Along (step json) Kept {} events := by
  have start : Inv {} :=
    ⟨fun _ => ⟨rfl, rfl⟩, ⟨nofun, nofun, List.nodup_nil⟩, nofun, nofun⟩
  have good : NotLost {} := nofun
  exact throughout_iff_along (fun _ e h => h.step e) (fun _ e h good => notLost_step h good e)
    start good

/-- A track with an address for its artwork. -/
def track : Data :=
  ⟨some "title".toList, some "artist".toList, some "id".toList, some "http://host/art".toList⟩

/-- The window is closed before the download has ended, and opened again. -/
def reopened : List Event :=
  [.show track true, .close, .show track true, .complete 0 .downloaded true]

theorem reopened_lost :
    ¬ ∀ front, front <+: reopened → NotLost (run (step true) {} front) := by
  intro throughout
  have surface : (run (step true) {} reopened).screen.surface = some .fallback := by decide +kernel
  have waiting : (run (step true) {} reopened).screen.artwork.waiting.length = 0 := by
    decide +kernel
  rcases throughout reopened (List.prefix_refl _) (by decide +kernel) (by decide +kernel)
    (by decide +kernel) with ⟨l, shown, _⟩ | ⟨p, inside, _⟩ | fruitless
  · rw [surface] at shown
    cases shown
  · rw [List.length_eq_zero_iff.mp waiting] at inside
    cases inside
  · exact absurd fruitless.1 (by decide +kernel)

end ArtworkReopening
