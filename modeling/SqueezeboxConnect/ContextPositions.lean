import SqueezeboxConnect.ContextRuns
import SqueezeboxConnect.ConnectCommands

/-!
# The positions that tracks carry

Each track of the default context is given its `context_index` while the page
it comes on is converted: the length of the context so far and the place of the
track on the page. Tracks that cannot be converted are dropped afterwards, so
the tracks behind them carry an index that is too large.
-/

namespace ContextPositions

open Connect ConnectState ContextRuns Words

theorem parseUsize_toString {n : Nat} (small : n < usizeSize) :
    Metadata.parseUsize (toString n) = some n := by
  have text : (toString n).toList = Nat.toDigits 10 n := by simp
  rw [Metadata.parseUsize, text, parseUnsigned_toDigits small]

variable {s : ConnectState}

section Page

/-- The track stands for an item. -/
def convertible (t : ContextTrack) : Bool := t.item.toOption.isSome

def places : List ContextTrack → Nat → List Nat
  | [], _ => []
  | t :: rest, k => if convertible t then k :: places rest (k + 1) else places rest (k + 1)

/-- No track that can be converted comes behind one that cannot. -/
def Trailing (tracks : List ContextTrack) : Prop :=
  ∀ t ∈ tracks.dropWhile convertible, convertible t = false

theorem places_bounds {tracks : List ContextTrack} {k i : Nat} (inside : i ∈ places tracks k) :
    k ≤ i ∧ i < k + tracks.length := by
  induction tracks generalizing k with
  | nil => simp [places] at inside
  | cons t rest ih =>
    have later : i ∈ places rest (k + 1) → k ≤ i ∧ i < k + (rest.length + 1) := by
      intro further
      have bounds := ih further
      omega
    rw [places] at inside
    split at inside
    · rcases List.mem_cons.mp inside with rfl | further
      · simp
      · exact later further
    · exact later inside

theorem places_eq_nil_iff (tracks : List ContextTrack) (k : Nat) :
    places tracks k = [] ↔ ∀ t ∈ tracks, convertible t = false := by
  induction tracks generalizing k with
  | nil => simp [places]
  | cons t rest ih =>
    cases item : convertible t with
    | true => simp [places, item]
    | false => simp [places, item, ih]

/-- The places are consecutive exactly if only tracks at the end are dropped. -/
theorem places_consecutive_iff (tracks : List ContextTrack) (k : Nat) :
    places tracks k = List.range' k (places tracks k).length ↔ Trailing tracks := by
  induction tracks generalizing k with
  | nil => simp [places, Trailing]
  | cons t rest ih =>
    cases item : convertible t with
    | true =>
      have passes : Trailing (t :: rest) ↔ Trailing rest := by
        simp [Trailing, List.dropWhile_cons_of_pos item]
      rw [passes, ← ih (k + 1), places, if_pos item, List.length_cons, List.range'_succ]
      exact ⟨fun same => (List.cons.inj same).2, fun same => congrArg (k :: ·) same⟩
    | false =>
      have stops : Trailing (t :: rest) ↔ places rest (k + 1) = [] := by
        rw [places_eq_nil_iff, Trailing, List.dropWhile_cons_of_neg (by simp [item])]
        simp [item]
      rw [stops, places, if_neg (by simp [item])]
      constructor
      · intro same
        cases later : places rest (k + 1) with
        | nil => rfl
        | cons i more =>
          rw [later, List.length_cons, List.range'_succ] at same
          have bounds := @places_bounds rest (k + 1) i (by simp [later])
          have first := (List.cons.inj same).1
          omega
      · intro nothing
        simp [nothing]

/-- The tracks a page adds, with the numbers they are given behind `length` tracks. -/
def Numbers (length : Nat) (page : ContextPage) (added : List ProvidedTrack) : Prop :=
  added.map ProvidedTrack.getContextIndex =
    (places page.tracks 0).map fun i => Metadata.parseUsize (toString (length + i))

theorem converted_index {t : ContextTrack} {uri : Option String} {i : Nat}
    {pageMetadata : Option Metadata} {uuid : String} {track : ProvidedTrack}
    (done : s.contextToProvidedTrack t uri (some i) pageMetadata none uuid = .ok track) :
    track.getContextIndex = Metadata.parseUsize (toString i) := by
  cases item : t.item with
  | error e => simp [contextToProvidedTrack, item, Except.map] at done
  | ok id =>
    simp only [contextToProvidedTrack, item, Except.map, Except.ok.injEq] at done
    have notAutoplay : ¬ (if s.unavailableUri.contains (playedUri id) = true then
        Provider.unavailable else Option.getD none .context) = .autoplay := by
      split <;> simp
    rw [if_neg notAutoplay] at done
    rw [← done]
    simp only [ProvidedTrack.getContextIndex, Metadata.getUsize, Option.elim,
      Metadata.get_insert, if_true, Option.bind_some]

theorem convertible_iff (s : ConnectState) (t : ContextTrack) (uri : Option String)
    (i : Option Nat) (pageMetadata : Option Metadata) (provider : Option Provider) (uuid : String) :
    convertible t = (s.contextToProvidedTrack t uri i pageMetadata provider
      uuid).toOption.isSome := by
  cases item : t.item <;>
    simp [convertible, contextToProvidedTrack, item, Except.map, Except.toOption]

theorem stateContextFromPage_numbers (s : ConnectState) (page : ContextPage) (metadata : Metadata)
    (restrictions : Option Restrictions) (uri : Option String) (length : Nat)
    (uuid : Nat → String) :
    Numbers length page (s.stateContextFromPage page metadata restrictions uri (some length) none
      uuid).tracks.vec := by
  simp only [Numbers, stateContextFromPage, ShuffleVec.ofVec, Option.map_some]
  generalize page.tracks = tracks
  generalize 0 = k
  induction tracks generalizing k with
  | nil => rfl
  | cons t rest ih =>
    rw [List.zipIdx_cons, List.filterMap_cons, places]
    generalize converted : s.contextToProvidedTrack t (some (uri.getD s.contextUri))
      (some (length + k)) (some page.metadata) none (uuid k) = result
    have same := convertible_iff s t (some (uri.getD s.contextUri)) (some (length + k))
      (some page.metadata) none (uuid k)
    rw [converted] at same
    cases result with
    | error e =>
      rw [if_neg (by simp [same, Except.toOption])]
      simp only [Except.toOption]
      exact ih (k + 1)
    | ok track =>
      rw [if_pos (by simp [same, Except.toOption])]
      simp only [Except.toOption, List.map_cons]
      rw [converted_index converted]
      exact congrArg _ (ih (k + 1))

end Page

variable {ctx : StateContext}

section Pages

/-- Pages are appended to the tracks, one after the other. -/
inductive Appends : List ContextPage → List ProvidedTrack → List ProvidedTrack → Prop
  | nil (tracks : List ProvidedTrack) : Appends [] tracks tracks
  | page {page : ContextPage} {rest : List ContextPage} {tracks added whole : List ProvidedTrack}
      (numbers : Numbers tracks.length page added) (later : Appends rest (tracks ++ added) whole) :
      Appends (page :: rest) tracks whole

def Positioned (tracks : List ProvidedTrack) : Prop :=
  ∀ (i : Nat) (t : ProvidedTrack), tracks[i]? = some t → t.getContextIndex = some i

theorem positioned_iff (tracks : List ProvidedTrack) :
    Positioned tracks ↔
      tracks.map ProvidedTrack.getContextIndex = (List.range tracks.length).map some := by
  constructor
  · intro positioned
    apply List.ext_getElem (by simp)
    intro i inside _
    simp only [List.length_map] at inside
    simpa using positioned i tracks[i] (List.getElem?_eq_getElem inside)
  · intro same i t found
    obtain ⟨inside, rfl⟩ := List.getElem?_eq_some_iff.mp found
    have here := congrArg (·[i]?) same
    simpa [inside] using here

variable {pages : List ContextPage}

theorem appends_append {more : List ContextPage} {tracks middle whole : List ProvidedTrack}
    (first : Appends pages tracks middle) (second : Appends more middle whole) :
    Appends (pages ++ more) tracks whole := by
  induction first with
  | nil => exact second
  | page numbers _ ih => exact .page numbers (ih second)

theorem appends_isPrefix {tracks whole : List ProvidedTrack} (appends : Appends pages tracks whole)
    : tracks <+: whole := by
  induction appends with
  | nil => exact List.prefix_refl _
  | page _ _ ih => exact (List.prefix_append ..).trans ih

/-- One more page keeps the positions exactly if only tracks at its end are dropped. -/
theorem positioned_append {tracks added : List ProvidedTrack} {page : ContextPage}
    (numbers : Numbers tracks.length page added) (length : tracks.length ≤ vecMax)
    (size : page.tracks.length ≤ vecMax) :
    Positioned (tracks ++ added) ↔ Positioned tracks ∧ Trailing page.tracks := by
  have parsed : added.map ProvidedTrack.getContextIndex =
      (places page.tracks 0).map fun i => some (tracks.length + i) := by
    rw [Numbers] at numbers
    rw [numbers]
    apply List.map_congr_left
    intro i inside
    have bounds := places_bounds inside
    apply parseUsize_toString
    simp only [usizeSize, vecMax] at length size ⊢
    omega
  have count : added.length = (places page.tracks 0).length := by
    simpa using congrArg List.length parsed
  have behind : added.map ProvidedTrack.getContextIndex =
      (List.range' tracks.length added.length).map some ↔ Trailing page.tracks := by
    rw [← places_consecutive_iff page.tracks 0, parsed, count]
    have shift : (List.range' tracks.length (places page.tracks 0).length).map some =
        (List.range' 0 (places page.tracks 0).length).map fun i => some (tracks.length + i) := by
      rw [List.range'_eq_map_range, List.range'_eq_map_range, List.map_map, List.map_map]
      apply List.map_congr_left
      intro i _
      simp
    rw [shift]
    exact List.map_inj_right fun i j same => by simpa using same
  rw [positioned_iff, positioned_iff, ← behind, List.map_append, List.length_append,
    List.range_eq_range', ← List.range'_append_1, List.map_append, List.range_eq_range',
    Nat.zero_add]
  constructor
  · intro same
    exact List.append_inj same (by simp)
  · rintro ⟨front, back⟩
    rw [front, back]

theorem appends_positioned {tracks whole : List ProvidedTrack}
    (appends : Appends pages tracks whole) (length : whole.length ≤ vecMax)
    (sizes : ∀ page ∈ pages, page.tracks.length ≤ vecMax) :
    Positioned whole ↔ Positioned tracks ∧ ∀ page ∈ pages, Trailing page.tracks := by
  induction appends with
  | nil => simp
  | @page page rest tracks added whole numbers later ih =>
    have shorter := (appends_isPrefix later).length_le
    rw [List.length_append] at shorter
    rw [ih length fun q inside => sizes q (by simp [inside]),
      positioned_append numbers (by omega) (sizes page (by simp)), List.forall_mem_cons, and_assoc]

theorem fillContextFromPage_appends (loaded : s.context = some ctx) (page : ContextPage)
    (uuid : Nat → String) :
    ∃ ctx', (s.fillContextFromPage page uuid).1.context = some ctx' ∧
      Appends [page] ctx.tracks.vec ctx'.tracks.vec := by
  have numbers : Numbers ctx.tracks.vec.length page (s.furtherTracks page uuid) := by
    simp only [furtherTracks, loaded, Option.map_some]
    exact stateContextFromPage_numbers ..
  simp only [fillContextFromPage, loaded, ShuffleVec.foldl_push]
  exact ⟨_, rfl, .page numbers (.nil _)⟩

theorem appends_empty {page : ContextPage} (empty : page.tracks.isEmpty = true)
    (tracks : List ProvidedTrack) : Appends [page] tracks tracks := by
  have nothing : page.tracks = [] := List.isEmpty_iff.mp empty
  have numbers : Numbers tracks.length page [] := by simp [Numbers, nothing, places]
  exact .page numbers (by simpa using Appends.nil tracks)

theorem loadPages_appends (uuid : Nat → Nat → String) (pages : List ContextPage) (k : Nat)
    (loaded : s.context = some ctx) :
    ∃ ctx', (loadPages uuid pages k s).1.context = some ctx' ∧
      Appends pages ctx.tracks.vec ctx'.tracks.vec := by
  induction pages generalizing k s ctx with
  | nil => exact ⟨ctx, loaded, .nil _⟩
  | cons page rest ih =>
    rw [loadPages]
    by_cases empty : page.tracks.isEmpty = true
    · rw [if_neg (by simp [empty])]
      obtain ⟨ctx', loaded', later⟩ := ih (k + 1) loaded
      exact ⟨ctx', loaded', appends_append (appends_empty empty _) later⟩
    · rw [if_pos (by simp [empty])]
      obtain ⟨ctx₁, loaded₁, first⟩ := fillContextFromPage_appends loaded page (uuid k)
      obtain ⟨ctx', loaded', later⟩ := ih (k + 1) loaded₁
      exact ⟨ctx', loaded', appends_append first later⟩

theorem replaceDefault_appends (s : ConnectState) (context : Context) (page : ContextPage)
    (uuid : Nat → String) :
    ∃ ctx, (s.replaceDefault context page uuid).context = some ctx ∧
      Appends [page] [] ctx.tracks.vec := by
  have numbers := stateContextFromPage_numbers s page context.metadata context.restrictions
    context.uri 0 uuid
  have appends := @Appends.page page [] [] _ _ numbers (.nil _)
  simp only [replaceDefault]
  split
  · refine ⟨_, rfl, ?_⟩
    rw [(keepPosition_keeps s _).2.2]
    exact appends
  · exact ⟨_, rfl, appends⟩

theorem updateContext_appends {context : Context} {uuid : Nat → Nat → String}
    {uris : Option (List String)} (done : (s.updateContext context .default uuid).2 = .ok uris) :
    ∃ ctx pages, (s.updateContext context .default uuid).1.context = some ctx ∧
      Appends pages [] ctx.tracks.vec ∧ ∀ page, page ∈ pages ↔ page ∈ context.pages := by
  rw [updateContext] at done ⊢
  dsimp only at done ⊢
  split at done
  · cases done
  · rename_i hasTracks
    rw [if_neg hasTracks]
    split at done
    · cases done
    · rename_i supported
      rw [if_neg supported]
      cases first : context.pages.find? fun page => !page.tracks.isEmpty with
      | none =>
        rw [first] at done
        cases done
      | some page =>
        obtain ⟨holds, front, back, split, passed⟩ := List.find?_eq_some_iff_append.mp first
        have others : context.pages.eraseP (fun page => !page.tracks.isEmpty) = front ++ back := by
          rw [split, List.eraseP_append_right _ (by simpa using passed),
            List.eraseP_cons_of_pos (by exact holds)]
        have same : ∀ q, q ∈ page :: context.pages.eraseP (fun page => !page.tracks.isEmpty) ↔
            q ∈ context.pages := by
          intro q
          rw [others, split]
          simp only [List.mem_cons, List.mem_append]
          exact or_left_comm
        obtain ⟨ctx, loaded, appends⟩ := replaceDefault_appends s context page (uuid 0)
        dsimp only
        split
        · rename_i alone
          refine ⟨ctx, [page], loaded, appends, ?_⟩
          rwa [List.isEmpty_iff.mp alone] at same
        · obtain ⟨ctx', loaded', later⟩ := loadPages_appends uuid _ 1 loaded
          exact ⟨ctx', _, loaded', appends_append appends later, same⟩

end Pages

/-- A message with pages of the default context, and the pages that come in later. -/
def loadContext (s : ConnectState) (context : Context) (uuid : Nat → Nat → String)
    (further : List (ContextPage × (Nat → String))) : ConnectState :=
  further.foldl (fun s page => (s.fillContextFromPage page.1 page.2).1)
    (s.updateContext context .default uuid).1

theorem furtherPages_append (further : List (ContextPage × (Nat → String)))
    (loaded : s.context = some ctx) :
    ∃ ctx', (further.foldl (fun s page => (s.fillContextFromPage page.1 page.2).1) s).context =
        some ctx' ∧ Appends (further.map Prod.fst) ctx.tracks.vec ctx'.tracks.vec := by
  induction further generalizing s ctx with
  | nil => exact ⟨ctx, loaded, .nil _⟩
  | cons page rest ih =>
    obtain ⟨ctx₁, loaded₁, first⟩ := fillContextFromPage_appends loaded page.1 page.2
    obtain ⟨ctx', loaded', later⟩ := ih loaded₁
    exact ⟨ctx', loaded', appends_append first later⟩

/-- Every track carries its position exactly if on no page a track that can be
converted comes behind one that cannot. -/
theorem positioned_iff_trailing {s : ConnectState} {context : Context}
    {uuid : Nat → Nat → String} {uris : Option (List String)}
    (done : (s.updateContext context .default uuid).2 = .ok uris)
    (further : List (ContextPage × (Nat → String)))
    (sizes : ∀ page ∈ context.pages ++ further.map Prod.fst, page.tracks.length ≤ vecMax)
    {ctx : StateContext} (loaded : (loadContext s context uuid further).context = some ctx)
    (length : ctx.tracks.vec.length ≤ vecMax) :
    Positioned ctx.tracks.vec ↔
      ∀ page ∈ context.pages ++ further.map Prod.fst, Trailing page.tracks := by
  obtain ⟨ctx₁, pages, loaded₁, first, same⟩ := updateContext_appends done
  obtain ⟨ctx', loaded', later⟩ := furtherPages_append further loaded₁
  obtain rfl : ctx' = ctx := Option.some.inj (loaded'.symm.trans loaded)
  have all : ∀ page, page ∈ pages ++ further.map Prod.fst ↔
      page ∈ context.pages ++ further.map Prod.fst := by
    simp [same]
  have start : Positioned [] := fun i t found => by simp at found
  rw [appends_positioned (appends_append first later) length fun page inside =>
    sizes page ((all page).mp inside)]
  simp only [start, true_and, all]

/-- A track that is given by its id alone. -/
def trackWithId (id : UInt8) : ContextTrack := ⟨none, none, some (List.replicate 16 id), []⟩

/-- A track that is not given at all. -/
def trackWithout : ContextTrack := ⟨none, none, none, []⟩

def message (tracks : List ContextTrack) : Context :=
  ⟨some "spotify:playlist:a", none, [], none, [⟨none, tracks, []⟩]⟩

def noUids : Nat → String := fun _ => ""

/-- A page whose last track is dropped, and one more page. -/
def lastDropped : ConnectState :=
  loadContext (loaded [] none) (message [trackWithId 1, trackWithout]) (fun _ => noUids)
    [(⟨none, [trackWithId 2], []⟩, noUids)]

theorem lastDropped_positioned :
    ∃ ctx, lastDropped.context = some ctx ∧ ctx.tracks.vec.length = 2 ∧
      Positioned ctx.tracks.vec := by
  refine ⟨_, rfl, by decide +kernel, ?_⟩
  refine (@positioned_iff_trailing (loaded [] none) (message [trackWithId 1, trackWithout])
    (fun _ => noUids) none rfl [(⟨none, [trackWithId 2], []⟩, noUids)] (by decide) _ rfl
    (by decide +kernel)).mpr ?_
  unfold Trailing
  decide +kernel

/-- A page whose first track is dropped. -/
def firstDropped : ConnectState :=
  loadContext (loaded [] none) (message [trackWithout, trackWithId 1, trackWithId 2])
    (fun _ => noUids) []

/-- The track behind the one that is dropped carries the place of its successor, and
switching shuffle off while it plays goes there. -/
theorem firstDropped_misplaced :
    ∃ ctx, firstDropped.context = some ctx ∧ ¬ Positioned ctx.tracks.vec ∧
      (firstDropped.resetPlaybackToPosition (some 0)).1.player.track = ctx.tracks.vec[0]? ∧
      ((firstDropped.resetPlaybackToPosition (some 0)).1.handleShuffle (fun _ _ => 0) false
        0).1.player.track = ctx.tracks.vec[1]? := by
  refine ⟨_, rfl, ?_, by decide +kernel, by decide +kernel⟩
  intro positioned
  have first := positioned 0 _ rfl
  revert first
  decide +kernel

end ContextPositions
