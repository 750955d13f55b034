import Mathlib.Data.List.Nodup
import SqueezeboxConnect.Runs
import SqueezeboxConnect.ShellQuoting
import SqueezeboxConnect.Words

/-!
# Artwork of the track that is playing

A lookup asks a resolver, an HTTP server and a download one after the other, each
of which answers at any time, once or never. Its callbacks have captured the
generation and the key; an answer is dropped where the artwork has moved on.
A call of `lookup` without a title or an artist, or with the key that is looked
up already, returns at once.

The Now Playing window starts a lookup for every new key and shows what comes
in. Images are known by the lookup they were downloaded for; whether a file can
be shown is said by the event. The request paths and the files are left out.
-/

namespace ArtworkRuns

open Runs Words

section Artwork

/-- What `%w`, a dot and a hyphen stand for. -/
def isHostChar (c : Char) : Bool := c.isAlphanum || c == '.' || c == '-'

/-- The `v` that is matched: an address with `https` is asked for without. -/
def plainUrl (v : Text) : Text :=
  if "https://".toList.isPrefixOf v then "http://".toList ++ v.drop 8 else v

def validUrl (v : Option Text) : Option Text :=
  let url := plainUrl (v.getD [])
  if "http://".toList.isPrefixOf url && (url.drop 7).head?.any isHostChar then some url else none

/-- What the callbacks of a lookup have captured. The number says which call it was; the code has no
such number. -/
structure Lookup where
  number : Nat
  generation : Nat
  key : Option Text
  deriving DecidableEq

inductive Stage where
  | resolver
  | http
  | download (url path : Text)

/-- What a call has come to. -/
inductive Call where
  | started (key : Option Text)
  | returned
  | cancelled
  deriving DecidableEq

/-- The object with the callbacks that are waited for. The calls so far, and the lookups for which
the artwork callback was called, are kept for what is said about them. -/
structure Artwork where
  generation : Nat := 0
  key : Option Text := none
  temp : Option Text := none
  waiting : List (Lookup × Stage) := []
  calls : List Call := []
  fired : List Lookup := []

namespace Artwork

variable (a : Artwork)

def current (l : Lookup) : Bool := l.generation == a.generation && l.key == a.key

def await (l : Lookup) (stage : Stage) : Artwork := { a with waiting := a.waiting ++ [(l, stage)] }

def cancel : Artwork :=
  { a with generation := a.generation + 1, key := none, temp := none
           calls := a.calls ++ [.cancelled] }

def download (l : Lookup) (url : Text) : Artwork :=
  let path := ShellQuoting.picturePath l.generation
  { a with temp := some path }.await l (.download url path)

def fetchPicture (l : Lookup) (picture : Option Text) : Artwork :=
  if a.current l then
    match picture with
    | some url => a.download l url
    | none => a
  else a

/-- The state in which a lookup has been counted. -/
def begin (key : Option Text) : Artwork :=
  { a with generation := a.generation + 1, key := key, temp := none
           calls := a.calls ++ [.started key] }

def lookup (title artist direct key : Option Text) : Artwork :=
  if title.getD [] = [] ∨ artist.getD [] = [] ∨ key = a.key then
    { a with calls := a.calls ++ [.returned] }
  else
    let l : Lookup := ⟨a.calls.length, a.generation + 1, key⟩
    match validUrl direct with
    | some url => (a.begin key).fetchPicture l (some url)
    | none => (a.begin key).await l .resolver

/-- What an external callback is called with. -/
inductive Completion where
  | resolved (ip : Option Text)
  /-- Nothing after an error or without a body, else the picture that the decoded response names. -/
  | answered (response : Option (Option Text))
  | downloaded

/-- One of the callbacks that are waited for is called; the result also says for which lookup the
artwork callback is called then. -/
def complete (json : Bool) (place : Nat) (completion : Completion) : Artwork × Option Lookup :=
  match a.waiting[place]? with
  | none => (a, none)
  | some (l, stage) =>
    let rest := { a with waiting := a.waiting.eraseIdx place }
    match stage, completion with
    | .resolver, .resolved ip =>
      (if a.current l && ip.isSome && json then rest.await l .http else rest, none)
    | .http, .answered response =>
      match a.current l, response with
      | true, some picture => (rest.fetchPicture l (validUrl picture), none)
      | _, _ => (rest, none)
    | .download _ _, .downloaded =>
      if a.current l then ({ rest with fired := a.fired ++ [l] }, some l) else (rest, none)
    | _, _ => (a, none)

end Artwork

end Artwork

section NowPlaying

/-- What `statusData` says about the track. -/
structure Data where
  title : Option Text
  artist : Option Text
  trackId : Option Text
  artworkUrl : Option Text

inductive Surface where
  | fallback
  | artwork (l : Lookup)
  deriving DecidableEq

structure NowPlaying where
  artwork : Artwork := {}
  key : Option Text := none
  surface : Option Surface := none
  window : Bool := false
  timer : Bool := false
  artist : Text := []
  title : Text := []

namespace NowPlaying

variable (n : NowPlaying)

/-- The artwork callback; `loads` says whether the file becomes a surface. -/
def setArtwork (l : Lookup) (loads : Bool) : NowPlaying :=
  if l.key ≠ n.key then n
  else if loads then { n with surface := some (.artwork l) } else n

def showFallback (loads : Bool) : NowPlaying :=
  if loads then { n with surface := some .fallback } else n

def createWindow (loads : Bool) : NowPlaying :=
  if n.window then n
  else
    { n with artist := "Waiting for Spotify...".toList, title := [], window := true }.showFallback
    loads

def setInfo (title artist : Text) : NowPlaying :=
  if title = [] ∧ artist = [] then
    { n with artist := "Waiting for Spotify...".toList, title := [] }
  else { n with artist := artist, title := title }

/-- What an update does when the key is another one. -/
def changeKey (title artist key : Text) (url : Option Text) (loads : Bool) : NowPlaying :=
  let n := { n with key := some key, artwork := n.artwork.cancel }.showFallback loads
  if title ≠ [] ∧ artist ≠ [] then
    { n with artwork := n.artwork.lookup (some title) (some artist) url (some key) }
  else n

def update (d : Data) (loads : Bool) : NowPlaying :=
  let title := d.title.getD []
  let artist := d.artist.getD []
  let key := d.trackId.getD (artist ++ '\x00' :: title)
  let n := n.setInfo title artist
  if some key ≠ n.key then n.changeKey title artist key d.artworkUrl loads else n

def «show» (d : Data) (loads : Bool) : NowPlaying :=
  { (n.createWindow loads).update d loads with timer := true }

def close : NowPlaying := { n with timer := false, artwork := n.artwork.cancel }

def complete (json : Bool) (place : Nat) (completion : Artwork.Completion) (loads : Bool) :
    NowPlaying :=
  let result := n.artwork.complete json place completion
  let n := { n with artwork := result.1 }
  match result.2 with
  | some l => n.setArtwork l loads
  | none => n

end NowPlaying

/-- The calls of the artwork object may also come from elsewhere. -/
inductive Event where
  | lookup (title artist direct key : Option Text)
  | cancel
  | complete (place : Nat) (completion : Artwork.Completion) (loads : Bool)
  | show (d : Data) (loads : Bool)
  | update (d : Data) (loads : Bool)
  | close

/-- `json` says whether the module for it was found. -/
def step (json : Bool) (n : NowPlaying) : Event → NowPlaying
  | .lookup title artist direct key =>
    { n with artwork := n.artwork.lookup title artist direct key }
  | .cancel => { n with artwork := n.artwork.cancel }
  | .complete place completion loads => n.complete json place completion loads
  | .show d loads => n.show d loads
  | .update d loads => n.update d loads
  | .close => n.close

end NowPlaying

section Lookups

/-- The lookup was started, and every call since then has returned at once. -/
def Latest (calls : List Call) (l : Lookup) : Prop :=
  calls[l.number]? = some (.started l.key) ∧ ∀ c ∈ calls.drop (l.number + 1), c = .returned

/-- The lookups that are waited for and those that are done. -/
def Artwork.numbers (a : Artwork) : List Nat :=
  a.waiting.map (·.1.number) ++ a.fired.map (·.number)

/-- The lookup was started; it is the latest one if no generation has come after it. -/
def Begun (a : Artwork) (l : Lookup) : Prop :=
  a.calls[l.number]? = some (.started l.key) ∧ l.generation ≤ a.generation ∧
    (l.generation = a.generation → Latest a.calls l)

structure Inv (a : Artwork) : Prop where
  begun : ∀ p ∈ a.waiting, Begun a p.1
  done : ∀ l ∈ a.fired, l.number < a.calls.length
  once : a.numbers.Nodup

variable {a a' : Artwork} {l : Lookup}

theorem Begun.lt (begun : Begun a l) : l.number < a.calls.length :=
  (List.getElem?_eq_some_iff.mp begun.1).1

/-- Another call: it returns at once, or it begins another generation. -/
theorem Begun.called (begun : Begun a l) {c : Call} (calls : a'.calls = a.calls ++ [c])
    (moved : a.generation < a'.generation ∨ a'.generation = a.generation ∧ c = .returned) :
    Begun a' l := by
  have inside := begun.lt
  obtain ⟨started, le, latest⟩ := begun
  have kept : a'.calls[l.number]? = some (.started l.key) := by
    rw [calls, List.getElem?_append_left inside, started]
  refine ⟨kept, by omega, fun same => ⟨kept, ?_⟩⟩
  rcases moved with later | ⟨stays, rfl⟩
  · omega
  · intro c member
    rw [calls, List.drop_append_of_le_length inside] at member
    rcases List.mem_append.mp member with before | last
    · exact (latest (same.trans stays)).2 c before
    · exact List.mem_singleton.mp last

theorem Inv.called (h : Inv a) {c : Call} (waiting : a'.waiting = a.waiting)
    (fired : a'.fired = a.fired) (calls : a'.calls = a.calls ++ [c])
    (moved : a.generation < a'.generation ∨ a'.generation = a.generation ∧ c = .returned) :
    Inv a' where
  begun p member := (h.begun p (waiting ▸ member)).called calls moved
  done l member := by
    have := h.done l (fired ▸ member)
    rw [calls, List.length_append]
    omega
  once := by
    rw [Artwork.numbers, waiting, fired]
    exact h.once

theorem Inv.await (h : Inv a) (begun : Begun a l) (new : l.number ∉ a.numbers) (stage : Stage) :
    Inv (a.await l stage) where
  begun p member := by
    rcases List.mem_append.mp member with before | last
    · exact h.begun p before
    · rw [List.mem_singleton.mp last]
      exact begun
  done := h.done
  once := by
    have numbers : (a.await l stage).numbers =
        a.waiting.map (·.1.number) ++ l.number :: a.fired.map (·.number) := by
      simp [Artwork.numbers, Artwork.await]
    rw [numbers, List.nodup_middle]
    exact List.nodup_cons.mpr ⟨new, h.once⟩

theorem Inv.fire (h : Inv a) (begun : Begun a l) (new : l.number ∉ a.numbers) :
    Inv { a with fired := a.fired ++ [l] } where
  begun := h.begun
  done m member := by
    rcases List.mem_append.mp member with before | last
    · exact h.done m before
    · rw [List.mem_singleton.mp last]
      exact begun.lt
  once := by
    have numbers : Artwork.numbers { a with fired := a.fired ++ [l] } =
        a.numbers ++ l.number :: [] := by
      simp [Artwork.numbers]
    rw [numbers, List.nodup_middle, List.append_nil]
    exact List.nodup_cons.mpr ⟨new, h.once⟩

/-- A callback that is called is waited for no more. -/
theorem Inv.take (h : Inv a) {place : Nat} {stage : Stage}
    (found : a.waiting[place]? = some (l, stage)) :
    Inv { a with waiting := a.waiting.eraseIdx place } ∧ Begun a l ∧
      l.number ∉ Artwork.numbers { a with waiting := a.waiting.eraseIdx place } := by
  have split : a.waiting = a.waiting.take place ++ (l, stage) :: a.waiting.drop (place + 1) := by
    obtain ⟨inside, same⟩ := List.getElem?_eq_some_iff.mp found
    rw [← same, ← List.drop_eq_getElem_cons inside, List.take_append_drop]
  have numbers : a.numbers = (a.waiting.take place).map (·.1.number) ++
      l.number :: ((a.waiting.drop (place + 1)).map (·.1.number) ++ a.fired.map (·.number)) := by
    rw [Artwork.numbers]
    nth_rewrite 1 [split]
    simp
  have once := h.once
  rw [numbers, List.nodup_middle, List.nodup_cons] at once
  have left : Artwork.numbers { a with waiting := a.waiting.eraseIdx place } =
      (a.waiting.take place).map (·.1.number) ++
        ((a.waiting.drop (place + 1)).map (·.1.number) ++ a.fired.map (·.number)) := by
    simp [Artwork.numbers, List.eraseIdx_eq_take_drop_succ]
  refine ⟨⟨fun p member => h.begun p (List.mem_of_mem_eraseIdx member), h.done, ?_⟩, ?_, ?_⟩
  · rw [left]
    exact once.2
  · exact h.begun (l, stage) (List.mem_of_getElem? found)
  · rw [left]
    exact once.1

theorem Inv.fetchPicture (h : Inv a) (begun : Begun a l) (new : l.number ∉ a.numbers)
    (picture : Option Text) : Inv (a.fetchPicture l picture) := by
  unfold Artwork.fetchPicture
  split
  · cases picture with
    | none => exact h
    | some url =>
      have stored : Inv { a with temp := some (ShellQuoting.picturePath l.generation) } :=
        ⟨h.begun, h.done, h.once⟩
      exact stored.await begun new _
  · exact h

theorem Inv.lookup (h : Inv a) (title artist direct key : Option Text) :
    Inv (a.lookup title artist direct key) := by
  rw [Artwork.lookup]
  split
  · exact h.called rfl rfl rfl (.inr ⟨rfl, rfl⟩)
  · have next : Inv (a.begin key) := h.called rfl rfl rfl (.inl (Nat.lt_succ_self _))
    have started : (a.begin key).calls[a.calls.length]? = some (.started key) := by
      simp [Artwork.begin]
    have begun : Begun (a.begin key) ⟨a.calls.length, a.generation + 1, key⟩ :=
      ⟨started, Nat.le_refl _, fun _ => ⟨started, by simp [Artwork.begin]⟩⟩
    have new : a.calls.length ∉ (a.begin key).numbers := by
      intro member
      rcases List.mem_append.mp member with waiting | fired
      · obtain ⟨p, inside, same⟩ := List.mem_map.mp waiting
        have := (h.begun p inside).lt
        omega
      · obtain ⟨m, inside, same⟩ := List.mem_map.mp fired
        have := h.done m inside
        omega
    split
    · exact next.fetchPicture begun new _
    · exact next.await begun new _

theorem Inv.cancel (h : Inv a) : Inv a.cancel :=
  h.called rfl rfl rfl (.inl (Nat.lt_succ_self _))

theorem fetchPicture_fired (a : Artwork) (l : Lookup) (picture : Option Text) :
    (a.fetchPicture l picture).fired = a.fired := by
  unfold Artwork.fetchPicture
  split
  · cases picture with
    | none => rfl
    | some url => rfl
  · rfl

theorem lookup_fired (a : Artwork) (title artist direct key : Option Text) :
    (a.lookup title artist direct key).fired = a.fired := by
  rw [Artwork.lookup]
  split
  · rfl
  · split
    · exact fetchPicture_fired _ _ _
    · rfl

/-- What an answer makes of the artwork: nothing, a lookup that is waited for no more or in its next
stage, or a call of the artwork callback. -/
inductive Answer (a : Artwork) (place : Nat) : Artwork × Option Lookup → Prop where
  | none : Answer a place (a, none)
  | dropped {l : Lookup} {stage : Stage} (found : a.waiting[place]? = some (l, stage)) :
      Answer a place ({ a with waiting := a.waiting.eraseIdx place }, .none)
  | next {l : Lookup} {stage : Stage} (found : a.waiting[place]? = some (l, stage))
      (stage' : Stage) (temp : Option Text) :
      Answer a place ({ a with temp := temp, waiting := a.waiting.eraseIdx place ++ [(l, stage')] },
        .none)
  | fired {l : Lookup} {stage : Stage} (found : a.waiting[place]? = some (l, stage))
      (current : a.current l = true) :
      Answer a place ({ a with waiting := a.waiting.eraseIdx place, fired := a.fired ++ [l] },
        some l)

theorem complete_answer (a : Artwork) (json : Bool) (place : Nat)
    (completion : Artwork.Completion) :
    Answer a place (a.complete json place completion) := by
  rw [Artwork.complete]
  split
  · exact .none
  · next l stage found =>
    dsimp only
    split
    · split
      · exact .next found _ _
      · exact .dropped found
    · split
      · next picture _ =>
        unfold Artwork.fetchPicture
        split
        · cases validUrl picture with
          | none => exact .dropped found
          | some url => exact .next found _ _
        · exact .dropped found
      · exact .dropped found
    · split
      · next current => exact .fired found current
      · exact .dropped found
    · exact .none

/-- The artwork callback is called for the latest lookup, or it is not called. -/
theorem Inv.answer (h : Inv a) {place : Nat} {result : Artwork × Option Lookup}
    (answer : Answer a place result) :
    Inv result.1 ∧
      (result.2 = none ∧ result.1.fired = a.fired ∨
        ∃ l, result.2 = some l ∧ result.1.fired = a.fired ++ [l] ∧ Latest result.1.calls l) := by
  cases answer with
  | none => exact ⟨h, .inl ⟨rfl, rfl⟩⟩
  | dropped found => exact ⟨(h.take found).1, .inl ⟨rfl, rfl⟩⟩
  | next found stage' temp =>
    obtain ⟨rest, begun, new⟩ := h.take found
    have moved := rest.await begun new stage'
    exact ⟨⟨moved.begun, moved.done, moved.once⟩, .inl ⟨rfl, rfl⟩⟩
  | fired found current =>
    obtain ⟨rest, begun, new⟩ := h.take found
    rw [Artwork.current, Bool.and_eq_true, beq_iff_eq] at current
    exact ⟨rest.fire begun new, .inr ⟨_, rfl, rfl, begun.2.2 current.1⟩⟩

end Lookups

section Showing

/-- No artwork is put into the window. -/
def Plain (n n' : NowPlaying) : Prop :=
  n'.surface = n.surface ∨ n'.surface = some .fallback

/-- What the window does with its artwork object, apart from the answers. -/
def Steered (a a' : Artwork) : Prop :=
  a' = a ∨ a' = a.cancel ∨
    ∃ title artist direct key, a' = a.cancel.lookup title artist direct key

theorem Steered.keeps {a a' : Artwork} (steered : Steered a a') (h : Inv a) :
    Inv a' ∧ a'.fired = a.fired := by
  rcases steered with rfl | rfl | ⟨title, artist, direct, key, rfl⟩
  · exact ⟨h, rfl⟩
  · exact ⟨h.cancel, rfl⟩
  · exact ⟨h.cancel.lookup _ _ _ _, lookup_fired _ _ _ _ _⟩

def keyOf (d : Data) : Text := d.trackId.getD (d.artist.getD [] ++ '\x00' :: d.title.getD [])

/-- The data that come with a title and an artist. -/
def Named (d : Data) : Prop := d.title.getD [] ≠ [] ∧ d.artist.getD [] ≠ []

instance (d : Data) : Decidable (Named d) := by unfold Named; infer_instance

/-- The artwork object after an update with another key. -/
def renewed (a : Artwork) (d : Data) : Artwork :=
  if Named d then
    a.cancel.lookup (some (d.title.getD [])) (some (d.artist.getD [])) d.artworkUrl (some (keyOf d))
  else a.cancel

/-- What an update makes of the window; one that was not created yet also gets the fallback. -/
structure Updated (n : NowPlaying) (d : Data) (n' : NowPlaying) : Prop where
  labels : n'.title ≠ [] ∧ n'.artist ≠ [] ↔ Named d
  key : n'.key = some (keyOf d)
  plain : Plain n n'
  same : some (keyOf d) = n.key →
    n'.artwork = n.artwork ∧ (n.window = true → n'.surface = n.surface)
  other : some (keyOf d) ≠ n.key → n'.artwork = renewed n.artwork d

theorem Updated.steered {n n' : NowPlaying} {d : Data} (updated : Updated n d n') :
    Steered n.artwork n'.artwork := by
  by_cases same : some (keyOf d) = n.key
  · exact .inl (updated.same same).1
  · rw [updated.other same, renewed]
    split
    · exact .inr (.inr ⟨_, _, _, _, rfl⟩)
    · exact .inr (.inl rfl)

variable (n : NowPlaying)

theorem showFallback_eq (loads : Bool) : ∃ surface,
    n.showFallback loads = { n with surface := surface } ∧
      (surface = n.surface ∨ surface = some .fallback) := by
  rw [NowPlaying.showFallback]
  split
  · exact ⟨_, rfl, .inr rfl⟩
  · exact ⟨_, rfl, .inl rfl⟩

theorem setInfo_eq (d : Data) : ∃ title artist,
    n.setInfo (d.title.getD []) (d.artist.getD []) = { n with title := title, artist := artist } ∧
      (title ≠ [] ∧ artist ≠ [] ↔ Named d) := by
  rw [NowPlaying.setInfo]
  split
  · next empty => exact ⟨_, _, rfl, by simp [Named, empty]⟩
  · exact ⟨_, _, rfl, Iff.rfl⟩

theorem update_updated (d : Data) (loads : Bool) :
    Updated n d (n.update d loads) ∧ (n.update d loads).window = n.window ∧
      (n.update d loads).timer = n.timer := by
  obtain ⟨title, artist, labelled, labels⟩ := setInfo_eq n d
  rw [NowPlaying.update, labelled]
  dsimp only
  split
  · next other =>
    obtain ⟨surface, fallback, plain⟩ := showFallback_eq { n with
      title := title, artist := artist, key := some (keyOf d), artwork := n.artwork.cancel } loads
    unfold NowPlaying.changeKey
    dsimp only [keyOf] at fallback ⊢
    rw [fallback]
    split
    · next named =>
      exact ⟨⟨labels, rfl, plain, fun same => absurd same other, fun _ => (if_pos named).symm⟩,
        rfl, rfl⟩
    · next named =>
      exact ⟨⟨labels, rfl, plain, fun same => absurd same other, fun _ => (if_neg named).symm⟩,
        rfl, rfl⟩
  · next same =>
    exact ⟨⟨labels, (not_not.mp same).symm, .inl rfl, fun _ => ⟨rfl, fun _ => rfl⟩,
      fun other => absurd other same⟩, rfl, rfl⟩

theorem show_updated (d : Data) (loads : Bool) :
    Updated n d (n.show d loads) ∧ (n.show d loads).window = true := by
  by_cases window : n.window = true
  · obtain ⟨updated, same, _⟩ := update_updated n d loads
    rw [NowPlaying.show, NowPlaying.createWindow, if_pos window]
    exact ⟨⟨updated.labels, updated.key, updated.plain, updated.same, updated.other⟩,
      same.trans window⟩
  · obtain ⟨surface, fallback, plain⟩ := showFallback_eq
      { n with artist := "Waiting for Spotify...".toList, title := [], window := true } loads
    rw [NowPlaying.show, NowPlaying.createWindow, if_neg window, fallback]
    obtain ⟨updated, same, _⟩ := update_updated { n with
      artist := "Waiting for Spotify...".toList, title := [], window := true, surface := surface }
      d loads
    refine ⟨⟨updated.labels, updated.key, ?_, fun known => ⟨(updated.same known).1, ?_⟩,
      updated.other⟩, same⟩
    · rcases updated.plain with kept | shown
      · exact plain.imp kept.trans kept.trans
      · exact .inr shown
    · exact fun created => absurd created window

/-- Only artwork of the present key is put into the window. -/
theorem setArtwork_spec (l : Lookup) (loads : Bool) :
    (n.setArtwork l loads).artwork = n.artwork ∧ (n.setArtwork l loads).key = n.key ∧
      ∀ m, (n.setArtwork l loads).surface = some (.artwork m) →
        n.surface = some (.artwork m) ∨ m = l ∧ l.key = n.key := by
  rw [NowPlaying.setArtwork]
  split
  · exact ⟨rfl, rfl, fun _ shown => .inl shown⟩
  · next current =>
    split
    · refine ⟨rfl, rfl, fun m shown => .inr ?_⟩
      cases shown
      exact ⟨rfl, not_not.mp current⟩
    · exact ⟨rfl, rfl, fun _ shown => .inl shown⟩

/-- The callback is called for the latest lookup, or it is not called. -/
def CallsLatest (json : Bool) (n : NowPlaying) (e : Event) : Prop :=
  (step json n e).artwork.fired = n.artwork.fired ∨
    ∃ l, (step json n e).artwork.fired = n.artwork.fired ++ [l] ∧
      Latest (step json n e).artwork.calls l

/-- Artwork that was not shown before is that of the lookup for which the callback is called, and
its key is the present one. -/
def ShowsCurrent (json : Bool) (n : NowPlaying) (e : Event) : Prop :=
  ∀ l, (step json n e).surface = some (.artwork l) → n.surface = some (.artwork l) ∨
    (step json n e).artwork.fired = n.artwork.fired ++ [l] ∧ l.key = (step json n e).key

variable {n} {json : Bool} {e : Event}

theorem sound_of_plain (fired : (step json n e).artwork.fired = n.artwork.fired)
    (plain : Plain n (step json n e)) :
    CallsLatest json n e ∧ ShowsCurrent json n e := by
  refine ⟨.inl fired, fun l shown => ?_⟩
  rcases plain with same | fallback
  · exact .inl (same.symm.trans shown)
  · rw [fallback] at shown
    cases shown

theorem sound_of_steered (h : Inv n.artwork)
    (steered : Steered n.artwork (step json n e).artwork) (plain : Plain n (step json n e)) :
    Inv (step json n e).artwork ∧ CallsLatest json n e ∧ ShowsCurrent json n e :=
  ⟨(steered.keeps h).1, sound_of_plain (steered.keeps h).2 plain⟩

theorem complete_sound (h : Inv n.artwork) (place : Nat) (completion : Artwork.Completion)
    (loads : Bool) :
    Inv (step json n (.complete place completion loads)).artwork ∧
      CallsLatest json n (.complete place completion loads) ∧
      ShowsCurrent json n (.complete place completion loads) := by
  obtain ⟨kept, ⟨called, fired⟩ | ⟨l, called, fired, latest⟩⟩ :=
    h.answer (complete_answer n.artwork json place completion)
  · have same : step json n (.complete place completion loads) =
        { n with artwork := (n.artwork.complete json place completion).1 } := by
      rw [step, NowPlaying.complete, called]
    have sound := @sound_of_plain n json (.complete place completion loads)
    rw [same] at sound ⊢
    exact ⟨kept, sound fired (.inl rfl)⟩
  · have same : step json n (.complete place completion loads) =
        { n with artwork := (n.artwork.complete json place completion).1 }.setArtwork l loads := by
      rw [step, NowPlaying.complete, called]
    obtain ⟨artwork, key, shown⟩ := setArtwork_spec
      { n with artwork := (n.artwork.complete json place completion).1 } l loads
    rw [CallsLatest, ShowsCurrent, same, artwork, key]
    refine ⟨kept, .inr ⟨l, fired, latest⟩, fun m surface => ?_⟩
    rcases shown m surface with before | ⟨rfl, current⟩
    · exact .inl before
    · exact .inr ⟨fired, current⟩

theorem step_sound (h : Inv n.artwork) (e : Event) :
    Inv (step json n e).artwork ∧ CallsLatest json n e ∧ ShowsCurrent json n e := by
  cases e with
  | lookup title artist direct key =>
    exact ⟨h.lookup _ _ _ _, sound_of_plain (lookup_fired _ _ _ _ _) (.inl rfl)⟩
  | cancel => exact sound_of_steered h (.inr (.inl rfl)) (.inl rfl)
  | complete place completion loads => exact complete_sound h place completion loads
  | «show» d loads =>
    have updated := (show_updated n d loads).1
    exact sound_of_steered h updated.steered updated.plain
  | update d loads =>
    have updated := (update_updated n d loads).1
    exact sound_of_steered h updated.steered updated.plain
  | close => exact sound_of_steered h (.inr (.inl rfl)) (.inl rfl)

/-- The object as the applet creates it. -/
def new : NowPlaying := {}

/-- The artwork callback is called at most once for a lookup, and only while the lookup is the
latest
one; the window shows new artwork only for its key. -/
theorem artwork_notStale (json : Bool) (events : List Event) :
    ((run (step json) new events).artwork.fired.map (·.number)).Nodup ∧
      Along (step json) (fun n e => CallsLatest json n e ∧ ShowsCurrent json n e) new events := by
  have start : Inv new.artwork := ⟨by simp [new], by simp [new], by simp [new, Artwork.numbers]⟩
  constructor
  · have h := @run_invariant' _ _ (step json) (fun n => Inv n.artwork) new
      (fun n e h => (step_sound h e).1) events start
    exact (List.nodup_append.mp h.once).2.1
  · have every : Along (step json) (fun _ _ => True) new events :=
      along_of_forall (step json) new fun _ _ => trivial
    exact along_of_invariant (fun n e h _ => (step_sound h e).1)
      (fun n e h _ => (step_sound h e).2) start every

end Showing

end ArtworkRuns
