import SqueezeboxConnect.Runs
import SqueezeboxConnect.ContextRuns
import SqueezeboxConnect.ConnectDeck

/-!
# Passes over a repeated context

A repeated context is put into the next tracks again and again, with a delimiter
in front of each further pass. The initial track of a shuffled context is left
out of the first pass, because it is already playing. The passes are counted
by the loop that fills the next tracks up, and each call of it counts from zero
again: a later pass leaves the initial track out too, unless the cursor is
already behind it when the call begins.
-/

namespace RepeatPasses

open Connect ConnectState ContextWindow ConnectDeck Runs

/-- The track does not have the uri of the initial one. -/
def notInitial (initial : Option String) (t : ProvidedTrack) : Bool := initial != some t.uri

variable (tracks : List ProvidedTrack)

/-- The pass that began at `start`, as far as the cursor; it leaves the initial track out. -/
def firstPass (initial : Option String) (start cursor : Nat) : List ProvidedTrack :=
  ((tracks.take cursor).drop start).filter (notInitial initial)

/-- Whole passes behind delimiters, and the last one as far as the cursor. -/
def furtherPasses (whole : List Nat) (iteration cursor : Nat) : List ProvidedTrack :=
  whole.flatMap (fun i => newDelimiter i :: tracks) ++ newDelimiter iteration :: tracks.take cursor

/-- What has been appended is the first pass, then the whole context once for each delimiter. -/
def WholePasses (initial : Option String) (start : Nat) (appended : List ProvidedTrack) : Prop :=
  (∃ cursor, appended = firstPass tracks initial start cursor) ∨
    ∃ whole iteration cursor, appended = firstPass tracks initial start tracks.length ++
      furtherPasses tracks whole iteration cursor

inductive Op where
  | nextTrack
  | fillUpNextTracks
  deriving DecidableEq, Repr

def apply (s : ConnectState) : Op → ConnectState
  | .nextTrack => s.nextTrack.1
  | .fillUpNextTracks => s.fillUpNextTracks.1

/-- What filling up puts behind the next tracks. -/
def filledIn (s : ConnectState) : List ProvidedTrack :=
  s.fillUpNextTracks.1.player.nextTracks.drop s.player.nextTracks.length

/-- The next track is taken, and nothing filled in yet. -/
def taken (s : ConnectState) : Option ProvidedTrack × ConnectState :=
  let s := if s.repeatTrack then s.setRepeatTrack false else s
  takeNextTrack s.retireTrack.player.nextTracks s.retireTrack

def appendedBy (s : ConnectState) : Op → List ProvidedTrack
  | .nextTrack => if (taken s).1.isSome then filledIn (taken s).2 else []
  | .fillUpNextTracks => filledIn s

/-- The state, and all that has been appended to the next tracks. -/
structure Session where
  state : ConnectState
  appended : List ProvidedTrack

def Session.start (s : ConnectState) : Session := ⟨s, []⟩

def step (r : Session) (op : Op) : Session :=
  ⟨apply r.state op, r.appended ++ appendedBy r.state op⟩

/-- The next tracks are filled up from a default context that repeats. -/
structure Repeating (tracks : List ProvidedTrack) (initial : Option String) (s : ConnectState) :
    Prop where
  context : ∃ ctx, s.context = some ctx ∧ ctx.tracks.vec = tracks ∧
    ctx.metadata.get "initial_track" = initial ∧ ctx.index.page = 0
  activeContext : s.activeContext = .default
  fillUpContext : s.fillUpContext = .default
  repeatContext : s.repeatContext = true
  noAutoplay : ∀ t ∈ s.player.nextTracks, t.isAutoplay = false

def Available : Prop := ∀ t ∈ tracks, t.provider = .context

/-- The first pass is not over, or the cursor is behind the initial track. -/
def BehindInitial (initial : Option String) (r : Session) : Prop :=
  (∀ i, newDelimiter i ∉ r.appended) ∨
    ∀ t ∈ tracks.drop (cursor r.state), notInitial initial t = true

variable {appended : List ProvidedTrack} {c : FillCursor} {s : ConnectState}

section Passes

variable {tracks : List ProvidedTrack} {initial : Option String} {start : Nat}

theorem firstPass_start : firstPass tracks initial start start = [] := by
  simp [firstPass]

theorem firstPass_add {j : Nat} (le : start ≤ j) (m : Nat) :
    firstPass tracks initial start (j + m) =
      firstPass tracks initial start j ++ ((tracks.drop j).take m).filter (notInitial initial) := by
  by_cases inside : j ≤ tracks.length
  · have reach : start ≤ (tracks.take j).length := by
      rw [List.length_take]
      omega
    rw [firstPass, List.take_add, List.drop_append_of_le_length reach, List.filter_append,
      firstPass]
  · have whole : tracks.take (j + m) = tracks.take j := by
      rw [List.take_of_length_le (by omega), List.take_of_length_le (by omega)]
    have nothing : tracks.drop j = [] := List.drop_eq_nil_of_le (by omega)
    rw [firstPass, whole, nothing]
    simp [firstPass]

theorem firstPass_beyond {j : Nat} (beyond : tracks.length ≤ j) :
    firstPass tracks initial start j = firstPass tracks initial start tracks.length := by
  rw [firstPass, List.take_of_length_le beyond, firstPass, List.take_length]

theorem furtherPasses_cons (i : Nat) (whole : List Nat) (iteration j : Nat) :
    furtherPasses tracks (i :: whole) iteration j =
      newDelimiter i :: (tracks ++ furtherPasses tracks whole iteration j) := by
  simp [furtherPasses]

theorem furtherPasses_delimiter (tracks : List ProvidedTrack) (whole : List Nat)
    (iteration j : Nat) :
    ∃ i rest, furtherPasses tracks whole iteration j = newDelimiter i :: rest := by
  cases whole with
  | nil => exact ⟨iteration, tracks.take j, rfl⟩
  | cons i whole => exact ⟨i, _, furtherPasses_cons i whole iteration j⟩

variable {whole : List Nat}

theorem furtherPasses_track {iteration j : Nat} {t : ProvidedTrack} (here : tracks[j]? = some t) :
    furtherPasses tracks whole iteration j ++ [t] =
      furtherPasses tracks whole iteration (j + 1) := by
  simp [furtherPasses, List.take_add_one, here]

theorem furtherPasses_wrap {iteration j : Nat} (i : Nat) (ended : tracks.length ≤ j) :
    furtherPasses tracks whole iteration j ++ [newDelimiter i] =
      furtherPasses tracks (whole ++ [iteration]) i 0 := by
  simp [furtherPasses, List.take_of_length_le ended]

def IsDelimiter (t : ProvidedTrack) : Prop := ∃ i, t = newDelimiter i

/-- The part in front of the first delimiter is determined. -/
theorem firstDelimiter_unique {a b x y : List ProvidedTrack} {d e : ProvidedTrack}
    (inA : ∀ t ∈ a, ¬ IsDelimiter t) (inB : ∀ t ∈ b, ¬ IsDelimiter t) (hd : IsDelimiter d)
    (he : IsDelimiter e) (same : a ++ d :: x = b ++ e :: y) : a = b := by
  induction a generalizing b with
  | nil =>
    cases b with
    | nil => rfl
    | cons t rest =>
      obtain ⟨rfl, -⟩ := List.cons.inj same
      exact absurd hd (inB d (List.mem_cons_self ..))
  | cons s front ih =>
    cases b with
    | nil =>
      obtain ⟨rfl, -⟩ := List.cons.inj same
      exact absurd he (inA s (List.mem_cons_self ..))
    | cons t rest =>
      obtain ⟨rfl, same'⟩ := List.cons.inj same
      rw [ih (fun t inside => inA t (List.mem_cons_of_mem s inside))
        (fun t inside => inB t (List.mem_cons_of_mem s inside)) same']

section

variable (plain : ∀ t ∈ tracks, ¬ IsDelimiter t)
include plain

/-- Between two delimiters that follow each other is the whole context. -/
theorem furtherPasses_between {iteration j : Nat} {begun front middle back : List ProvidedTrack}
    {d e : ProvidedTrack} (inBegun : ∀ t ∈ begun, ¬ IsDelimiter t) (hd : IsDelimiter d)
    (he : IsDelimiter e) (inMiddle : ∀ t ∈ middle, ¬ IsDelimiter t)
    (split : begun ++ furtherPasses tracks whole iteration j = front ++ d :: (middle ++ e :: back))
    :
    middle = tracks := by
  have inTake : ∀ t ∈ tracks.take j, ¬ IsDelimiter t :=
    fun t inside => plain t (List.mem_of_mem_take inside)
  induction front generalizing begun whole with
  | nil =>
    cases begun with
    | nil =>
      cases whole with
      | nil =>
        obtain ⟨-, rest⟩ := List.cons.inj split
        exact absurd he (inTake e (by simp [rest]))
      | cons i whole =>
        rw [furtherPasses_cons] at split
        obtain ⟨-, rest⟩ := List.cons.inj split
        obtain ⟨i', later, next⟩ := furtherPasses_delimiter tracks whole iteration j
        rw [next] at rest
        exact (firstDelimiter_unique plain inMiddle ⟨i', rfl⟩ he rest).symm
    | cons t begun =>
      obtain ⟨rfl, -⟩ := List.cons.inj split
      exact absurd hd (inBegun t (List.mem_cons_self ..))
  | cons f front ih =>
    cases begun with
    | nil =>
      cases whole with
      | nil =>
        obtain ⟨-, rest⟩ := List.cons.inj split
        exact absurd hd (inTake d (by simp [rest]))
      | cons i whole =>
        rw [furtherPasses_cons] at split
        obtain ⟨-, rest⟩ := List.cons.inj split
        exact ih plain rest
    | cons t begun =>
      obtain ⟨-, rest⟩ := List.cons.inj split
      exact ih (fun t' inside => inBegun t' (List.mem_cons_of_mem t inside)) rest

theorem firstPass_plain {j : Nat} : ∀ t ∈ firstPass tracks initial start j, ¬ IsDelimiter t := by
  intro t inside
  exact plain t (List.mem_of_mem_take (List.mem_of_mem_drop (List.mem_filter.mp inside).1))

/-- In the words of the delimiters: what is between two of them is the whole context. -/
theorem wholePasses_between {front middle back : List ProvidedTrack} {d e : ProvidedTrack}
    (h : WholePasses tracks initial start appended) (hd : IsDelimiter d) (he : IsDelimiter e)
    (inMiddle : ∀ t ∈ middle, ¬ IsDelimiter t)
    (split : appended = front ++ d :: (middle ++ e :: back)) : middle = tracks := by
  rcases h with ⟨j, first⟩ | ⟨whole, iteration, j, rfl⟩
  · have inside : d ∈ firstPass tracks initial start j := by
      rw [← first, split]
      simp
    exact absurd hd (firstPass_plain plain d inside)
  · exact furtherPasses_between plain (firstPass_plain plain) hd he inMiddle split

end

end Passes

section Loop

variable {tracks : List ProvidedTrack} {initial : Option String} {start : Nat}

/-- How far the passes have come at the cursor of the loop, and that the loop leaves out no
track that it should append. -/
inductive Progress (tracks : List ProvidedTrack) (initial : Option String) (start : Nat)
    (c : FillCursor) (appended : List ProvidedTrack) : Prop
  | first (iteration : c.iteration = 0) (le : start ≤ c.newIndex)
      (eq : appended = firstPass tracks initial start c.newIndex)
  | further (whole : List Nat) (i : Nat)
      (eq : appended = firstPass tracks initial start tracks.length ++
        furtherPasses tracks whole i c.newIndex)
      (behind : c.iteration = 0 → ∀ t ∈ tracks.drop c.newIndex, notInitial initial t = true)

theorem wholePasses_of_progress (h : Progress tracks initial start c appended) :
    WholePasses tracks initial start appended := by
  cases h with
  | first _ _ eq => exact Or.inl ⟨_, eq⟩
  | further whole i eq _ => exact Or.inr ⟨whole, i, _, eq⟩

/-- The loop leaves the initial track out as long as it has not counted a pass. -/
def leftOut (initial : Option String) (iteration : Nat) (t : ProvidedTrack) : Bool :=
  !notInitial initial t && iteration == 0

/-- The place of the next track that the loop does not leave out. -/
def place (tracks : List ProvidedTrack) (initial : Option String) (c : FillCursor) : Nat :=
  c.newIndex + ((tracks.drop c.newIndex).takeWhile (leftOut initial c.iteration)).length

/-- What the loop appends next, and the cursor behind it. -/
def fillStep (tracks : List ProvidedTrack) (initial : Option String) (c : FillCursor) :
    ProvidedTrack × FillCursor :=
  match tracks[place tracks initial c]? with
  | some t => (t, ⟨place tracks initial c + 1, c.iteration⟩)
  | none => (newDelimiter c.iteration, ⟨0, c.iteration + 1⟩)

theorem takeWhile_congr {α : Type} {p q : α → Bool} {xs : List α} (same : ∀ x ∈ xs, p x = q x) :
    xs.takeWhile p = xs.takeWhile q := by
  induction xs with
  | nil => rfl
  | cons x rest ih =>
    rw [List.takeWhile_cons, List.takeWhile_cons, same x (List.mem_cons_self ..),
      ih fun y inside => same y (List.mem_cons_of_mem x inside)]

theorem takeWhile_stops {α : Type} {p : α → Bool} {xs : List α} {x : α}
    (found : xs[(xs.takeWhile p).length]? = some x) : p x = false := by
  induction xs with
  | nil => simp at found
  | cons y rest ih =>
    by_cases holds : p y = true
    · rw [List.takeWhile_cons_of_pos holds, List.length_cons, List.getElem?_cons_succ] at found
      exact ih found
    · rw [List.takeWhile_cons_of_neg holds] at found
      obtain rfl : y = x := Option.some.inj found
      simpa using holds

section

variable (h : Repeating tracks initial s)
include h

theorem isSkipTrack_repeating (t : ProvidedTrack) (iteration : Nat) :
    s.isSkipTrack t (some iteration) = leftOut initial iteration t := by
  obtain ⟨ctx, hctx, -, rfl, -⟩ := h.context
  simp [isSkipTrack, h.activeContext, getContext, hctx, leftOut, notInitial, bne]

theorem skipped_repeating (available : Available tracks) (c : FillCursor) :
    c.newIndex + s.skipped tracks c = place tracks initial c := by
  rw [skipped, place]
  congr 2
  apply takeWhile_congr
  intro t inside
  have provider := available t (List.mem_of_mem_drop inside)
  simp [isSkipTrack_repeating h, ProvidedTrack.isUnavailable, provider]

theorem nextFill_repeating (available : Available tracks) (c : FillCursor) :
    s.nextFill c =
      (s, .ok (some (fillStep tracks initial c).1, (fillStep tracks initial c).2)) := by
  have passed := skipped_repeating h available c
  obtain ⟨ctx, hctx, rfl, -, -⟩ := h.context
  simp only [nextFill, h.fillUpContext, getContext, hctx, Option.elim, passed, fillStep,
    h.repeatContext, if_true]
  cases ctx.tracks.vec[place ctx.tracks.vec initial c]? with
  | some t => rfl
  | none => rfl

end

/-- The tracks up to the place all have the uri of the initial one. -/
theorem firstPass_place (le : start ≤ c.newIndex) (zero : c.iteration = 0) :
    firstPass tracks initial start (place tracks initial c) =
      firstPass tracks initial start c.newIndex := by
  let left := (tracks.drop c.newIndex).takeWhile (leftOut initial c.iteration)
  have taken : (tracks.drop c.newIndex).take left.length = left :=
    List.prefix_iff_eq_take.mp (List.takeWhile_prefix _) |>.symm
  have nothing : left.filter (notInitial initial) = [] := by
    rw [List.filter_eq_nil_iff]
    intro t inside
    have out := List.mem_takeWhile_imp inside
    simp only [leftOut, zero] at out
    simpa using out
  rw [place, firstPass_add le, taken, nothing, List.append_nil]

theorem place_behind
    (behind : c.iteration = 0 → ∀ t ∈ tracks.drop c.newIndex, notInitial initial t = true) :
    place tracks initial c = c.newIndex := by
  have nothing : (tracks.drop c.newIndex).takeWhile (leftOut initial c.iteration) = [] := by
    cases rest : tracks.drop c.newIndex with
    | nil => rfl
    | cons t later =>
      apply List.takeWhile_cons_of_neg
      simp only [leftOut, Bool.and_eq_true, Bool.not_eq_true', beq_iff_eq, not_and]
      intro same zero
      have other := behind zero t (by simp [rest])
      rw [other] at same
      cases same
  rw [place, nothing]
  rfl

theorem fillStep_progress (h : Progress tracks initial start c appended) :
    Progress tracks initial start (fillStep tracks initial c).2
      (appended ++ [(fillStep tracks initial c).1]) := by
  cases h with
  | first zero le eq =>
    have same : firstPass tracks initial start (place tracks initial c) =
        firstPass tracks initial start c.newIndex := firstPass_place le zero
    have further : start ≤ place tracks initial c := le.trans (Nat.le_add_right _ _)
    rw [← same] at eq
    rw [fillStep]
    cases found : tracks[place tracks initial c]? with
    | some t =>
      have notLeft : notInitial initial t = true := by
        rw [place, ← List.getElem?_drop] at found
        simpa [leftOut, zero] using takeWhile_stops found
      refine .first zero (Nat.le_succ_of_le further) ?_
      have single : (tracks.drop (place tracks initial c)).take 1 = [t] := by
        rw [List.drop_eq_getElem?_toList_append, found]
        rfl
      rw [firstPass_add further, eq, single, List.filter_singleton, notLeft]
      rfl
    | none =>
      have ended := List.getElem?_eq_none_iff.mp found
      rw [firstPass_beyond ended] at eq
      refine .further [] c.iteration ?_ (by simp)
      rw [eq]
      rfl
  | further whole i eq behind =>
    rw [fillStep, place_behind behind]
    cases found : tracks[c.newIndex]? with
    | some t =>
      refine .further whole i ?_ ?_
      · rw [eq, List.append_assoc, furtherPasses_track found]
      · intro zero t inside
        exact behind zero t (List.mem_of_mem_drop (by rwa [List.drop_drop]))
    | none =>
      have ended := List.getElem?_eq_none_iff.mp found
      refine .further (whole ++ [i]) c.iteration ?_ (by simp)
      rw [eq, List.append_assoc, furtherPasses_wrap _ ended]

theorem fillStep_noAutoplay (available : Available tracks) (c : FillCursor) :
    (fillStep tracks initial c).1.isAutoplay = false := by
  rw [fillStep]
  cases found : tracks[place tracks initial c]? with
  | some t => simp [ProvidedTrack.isAutoplay, available t (List.mem_of_getElem? found)]
  | none => rfl

theorem addNext_repeating (h : Repeating tracks initial s) {added : List ProvidedTrack}
    (noAutoplay : ∀ t ∈ added, t.isAutoplay = false) :
    Repeating tracks initial (addNext s added) := by
  refine ⟨h.context, h.activeContext, h.fillUpContext, h.repeatContext, ?_⟩
  intro t inside
  rcases List.mem_append.mp inside with old | new
  · exact h.noAutoplay t old
  · exact noAutoplay t new

theorem fillLoop_progress (available : Available tracks) (h : Repeating tracks initial s)
    (room : Nat) (progress : Progress tracks initial start c appended) :
    ∃ added c', fillLoop room s c = (addNext s added, .ok c') ∧
      Progress tracks initial start c' (appended ++ added) ∧
      ∀ t ∈ added, t.isAutoplay = false := by
  induction room generalizing s c appended with
  | zero => exact ⟨[], c, by simp [fillLoop, addNext, setPlayer], by simpa using progress, by simp⟩
  | succ room ih =>
    let next := fillStep tracks initial c
    have noAutoplay : ∀ t ∈ [next.1], t.isAutoplay = false := by
      simpa using fillStep_noAutoplay available c
    obtain ⟨added, c', hloop, progress', noAutoplay'⟩ :=
      ih (addNext_repeating h noAutoplay) (fillStep_progress progress)
    refine ⟨next.1 :: added, c', ?_, by simpa using progress', ?_⟩
    · have round : fillLoop (room + 1) s c = fillLoop room (addNext s [next.1]) next.2 := by
        simp [fillLoop, nextFill_repeating h available, Reply.andThen, addNext, next]
      rw [round, hloop]
      simp [addNext, setPlayer]
    · intro t inside
      rcases List.mem_cons.mp inside with rfl | inside
      · exact noAutoplay _ (List.mem_singleton_self _)
      · exact noAutoplay' t inside

/-- A call of the loop goes on where the last one stopped, and counts from zero. -/
theorem fillUp_progress (available : Available tracks) (h : Repeating tracks initial s)
    (progress : Progress tracks initial start ⟨cursor s, 0⟩ appended) :
    ∃ i, s.fillUpNextTracks.2 = .ok () ∧ Repeating tracks initial s.fillUpNextTracks.1 ∧
      Progress tracks initial start ⟨cursor s.fillUpNextTracks.1, i⟩ (appended ++ filledIn s) := by
  obtain ⟨ctx, hctx, htracks, hinitial, page⟩ := h.context
  have before : cursor s = ctx.index.track := by simp [cursor, hctx]
  rw [before] at progress
  obtain ⟨added, c, hloop, progress', noAutoplay⟩ := fillLoop_progress available h
    (SPOTIFY_MAX_NEXT_TRACKS_SIZE - s.player.nextTracks.length) progress
  have filled : s.fillUpNextTracks = ((addNext s added).setContext .default
      { ctx with index := { ctx.index with track := c.newIndex } }, .ok ()) := by
    simp [fillUpNextTracks, h.fillUpContext, getContext, hctx, page, hloop, Reply.andThen,
      updateContextIndex, addNext, setPlayer]
  have all : filledIn s = added := by
    rw [filledIn, filled]
    exact List.drop_left
  have repeating := addNext_repeating h noAutoplay
  rw [all, filled]
  exact ⟨c.iteration, rfl, ⟨⟨_, rfl, htracks, hinitial, page⟩, repeating.activeContext,
    repeating.fillUpContext, repeating.repeatContext, repeating.noAutoplay⟩, progress'⟩

end Loop

section Step

variable {tracks : List ProvidedTrack} {initial : Option String} {start : Nat}

theorem nextTrack_taken (s : ConnectState) :
    s.nextTrack = playTaken (taken s).1 (taken s).2 := by
  rw [nextTrack, taken]
  split
  · rename_i result
    rw [result]
    rfl
  · rename_i result
    rw [result]
    rfl

theorem repeating_of_sameWindow {s' : ConnectState} (same : SameWindow s s')
    (h : Repeating tracks initial s) : Repeating tracks initial s' := by
  refine ⟨?_, same.active_eq.trans h.activeContext, same.fillUp_eq.trans h.fillUpContext,
    same.repeat_eq.trans h.repeatContext, ?_⟩
  · rw [same.context_eq]
    exact h.context
  · rw [same.next_eq]
    exact h.noAutoplay

theorem taken_repeating (h : Repeating tracks initial s) :
    Repeating tracks initial (taken s).2 ∧ cursor (taken s).2 = cursor s ∧
      ∀ t ∈ (taken s).1, t.isAutoplay = false := by
  have same := sameWindow_setRepeatTrack s
  rw [taken]
  generalize (if s.repeatTrack then s.setRepeatTrack false else s) = s₁ at same
  have h₁ := repeating_of_sameWindow same h
  rw [retireTrack_eq]
  obtain ⟨newTrack, passed, rest, prevTracks, result, takes⟩ := takeNextTrack_takes
    s₁.player.nextTracks (placed s₁ none (retired s₁) s₁.player.nextTracks)
  have noAutoplay := h₁.noAutoplay
  rw [takes.split] at noAutoplay
  have rewritten : takeNextTrack (placed s₁ none (retired s₁)
    s₁.player.nextTracks).player.nextTracks
      (placed s₁ none (retired s₁) s₁.player.nextTracks) = _ := result
  rw [rewritten]
  refine ⟨⟨h₁.context, h₁.activeContext, h₁.fillUpContext, h₁.repeatContext, ?_⟩, ?_, ?_⟩
  · exact fun t inside => noAutoplay t (List.mem_append_right _ inside)
  · exact (cursor_of_sameWindow same : cursor s₁ = cursor s)
  · intro t inside
    have found : newTrack = some t := inside
    exact noAutoplay t (by simp [found])

/-- A track that is not from the autoplay context leaves the contexts as they are. -/
theorem startTrack_repeating (h : Repeating tracks initial s) {t : ProvidedTrack}
    (noAutoplay : t.isAutoplay = false) :
    Repeating tracks initial (s.startTrack t).1 ∧ cursor (s.startTrack t).1 = cursor s := by
  have same := startTrack_spec s noAutoplay
  have placedTrack : Repeating tracks initial (s.setTrack t) :=
    ⟨h.context, h.activeContext, h.fillUpContext, h.repeatContext, h.noAutoplay⟩
  exact ⟨repeating_of_sameWindow same placedTrack, (cursor_of_sameWindow same).trans rfl⟩

/-- What a run keeps: the context, and how far its passes have come. -/
def Going (tracks : List ProvidedTrack) (initial : Option String) (start : Nat) (r : Session) :
    Prop :=
  Repeating tracks initial r.state ∧
    ∃ i, Progress tracks initial start ⟨cursor r.state, i⟩ r.appended

variable {r : Session}

theorem progress_restart {i : Nat}
    (progress : Progress tracks initial start ⟨cursor r.state, i⟩ r.appended)
    (behind : BehindInitial tracks initial r) :
    Progress tracks initial start ⟨cursor r.state, 0⟩ r.appended := by
  cases progress with
  | first _ le eq => exact .first rfl le eq
  | further whole i eq _ =>
    refine .further whole i eq fun _ => ?_
    rcases behind with nothing | behind
    · exact absurd (by simp [eq, furtherPasses]) (nothing i)
    · exact behind

theorem nextTrack_going (available : Available tracks) (h : Repeating tracks initial r.state)
    (progress : Progress tracks initial start ⟨cursor r.state, 0⟩ r.appended) :
    Going tracks initial start (step r .nextTrack) := by
  obtain ⟨h₁, sameCursor, noAutoplay⟩ := taken_repeating h
  simp only [Going, step, apply, appendedBy, nextTrack_taken]
  rw [← sameCursor] at progress
  generalize taken r.state = result at h₁ progress noAutoplay
  obtain ⟨newTrack, s₁⟩ := result
  cases newTrack with
  | none =>
    rw [if_neg (by simp), List.append_nil]
    exact ⟨h₁, 0, progress⟩
  | some t =>
    obtain ⟨i, succeeds, h₂, progress'⟩ := fillUp_progress available h₁ progress
    have played : (playTaken (some t) s₁).1 = (s₁.fillUpNextTracks.1.startTrack t).1 := by
      rw [playTaken]
      generalize s₁.fillUpNextTracks = reply at succeeds
      obtain ⟨s₂, outcome⟩ := reply
      cases succeeds
      rfl
    obtain ⟨h₃, cursor₃⟩ := startTrack_repeating h₂ (noAutoplay t rfl)
    dsimp only
    rw [played, cursor₃]
    exact ⟨h₃, i, progress'⟩

theorem step_going (available : Available tracks) (h : Going tracks initial start r) (op : Op)
    (behind : BehindInitial tracks initial r) : Going tracks initial start (step r op) := by
  obtain ⟨repeating, i, progress⟩ := h
  have restart := progress_restart progress behind
  cases op with
  | nextTrack => exact nextTrack_going available repeating restart
  | fillUpNextTracks =>
    obtain ⟨i, -, repeating', progress'⟩ := fillUp_progress available repeating restart
    exact ⟨repeating', i, progress'⟩

/-- As long as each call begins in the first pass or behind the initial track, every pass
after the first has all tracks of the context in their order. -/
theorem wholePasses_of_behind (available : Available tracks) {s : ConnectState}
    (repeating : Repeating tracks initial s) (ops : List Op)
    (behind : Along step (fun r _ => BehindInitial tracks initial r) (.start s) ops) :
    WholePasses tracks initial (cursor s) (run step (.start s) ops).appended := by
  have keeps : ∀ r op, Going tracks initial (cursor s) r → BehindInitial tracks initial r →
      Going tracks initial (cursor s) (step r op) :=
    fun _ op h good => step_going available h op good
  have begun : Going tracks initial (cursor s) (.start s) :=
    ⟨repeating, 0, .first rfl (Nat.le_refl _) firstPass_start.symm⟩
  obtain ⟨-, i, progress⟩ := run_invariant keeps begun behind
  exact wholePasses_of_progress progress

end Step

def contextTracks (uris : List String) : List ProvidedTrack :=
  uris.map fun uri => ⟨uri, "", [], .context⟩

/-- A shuffled context that repeats, before its first tracks are filled in. -/
def shuffled (uris : List String) (initial : String) : ConnectState :=
  { (ContextRuns.loaded [] none).setRepeatContext true with
    context := some ⟨.ofVec (contextTracks uris), [("initial_track", initial)], none, ⟨0, 0⟩⟩ }

theorem shuffled_repeating (uris : List String) (initial : String) :
    Repeating (contextTracks uris) (some initial) (shuffled uris initial) :=
  ⟨⟨_, rfl, rfl, by simp [Metadata.get], rfl⟩, rfl, rfl, rfl,
    fun _ inside => absurd inside List.not_mem_nil⟩

theorem contextTracks_available (uris : List String) : Available (contextTracks uris) := by
  intro t inside
  obtain ⟨uri, -, rfl⟩ := List.mem_map.mp inside
  rfl

/-- With three tracks the first call ends behind the initial track. -/
theorem threeTracks_wholePasses :
    WholePasses (contextTracks ["a", "b", "c"]) (some "a") 0
      (run step (.start (shuffled ["a", "b", "c"] "a"))
        [.fillUpNextTracks, .nextTrack, .nextTrack]).appended := by
  refine wholePasses_of_behind (contextTracks_available _)
    (shuffled_repeating _ _) _ ⟨?_, ?_, ?_, trivial⟩
  · exact Or.inl (by simp [Session.start])
  · right
    decide +kernel
  · right
    decide +kernel

/-- With two tracks it ends with a delimiter, and the pass of the next call has no
initial track. -/
theorem twoTracks_not_wholePasses :
    ¬ WholePasses (contextTracks ["a", "b"]) (some "a") 0
      (run step (.start (shuffled ["a", "b"] "a"))
        [.fillUpNextTracks, .nextTrack, .nextTrack]).appended := by
  intro passes
  let b := (⟨"b", "", [], .context⟩ : ProvidedTrack)
  have notDelimiter : ∀ t : ProvidedTrack, t.uri ≠ "spotify:delimiter" → ¬ IsDelimiter t := by
    rintro t other ⟨i, rfl⟩
    exact other rfl
  have plain : ∀ t ∈ contextTracks ["a", "b"], ¬ IsDelimiter t := by
    intro t inside
    apply notDelimiter
    revert t
    decide
  have split : (run step (.start (shuffled ["a", "b"] "a"))
      [.fillUpNextTracks, .nextTrack, .nextTrack]).appended =
        (run step (.start (shuffled ["a", "b"] "a")) [.fillUpNextTracks]).appended.dropLast ++
          newDelimiter 26 :: ([b] ++ newDelimiter 0 :: [⟨"a", "", [], .context⟩]) := by
    decide +kernel
  have pass := wholePasses_between plain passes ⟨26, rfl⟩ ⟨0, rfl⟩
    (by simpa using notDelimiter b (by decide)) split
  exact absurd (congrArg List.length pass) (by decide)

end RepeatPasses
