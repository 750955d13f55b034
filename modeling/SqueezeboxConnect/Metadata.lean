import SqueezeboxConnect.PlayerThread
import SqueezeboxConnect.BridgeLoop

/-!
# The metadata helper

The engine runs the helper once for every player event, one after the other. The
helper leaves small files for the applet and the bridge. A plain write empties
the file before it fills it, and a reader may come in between; a file that is
renamed into place changes in one step. An error ends the helper behind some of
its operations.
-/

namespace Metadata

open PlayerThread BridgeLoop Words

/-- The files next to the path the helper is given. -/
inductive File where
  | metadata
  | state
  | volume
  | loading
  deriving DecidableEq, Repr

abbrev Files := File → Option Text

inductive FileOp where
  | truncate (file : File)
  | fill (file : File) (content : Text)
  | rename (file : File) (content : Text)
  deriving DecidableEq

def FileOp.apply (files : Files) : FileOp → Files
  | truncate file => Function.update files file (some [])
  | fill file content => Function.update files file (some content)
  | rename file content => Function.update files file (some content)

/-- The values of `PLAYER_EVENT`. -/
inductive EventName where
  | playRequestIdChanged
  | trackChanged
  | stopped
  | playing
  | paused
  | loading
  | preloading
  | preloadNext
  | endOfTrack
  | unavailable
  | volumeChanged
  | seeked
  | positionCorrection
  | sessionConnected
  | sessionDisconnected
  | sessionClientChanged
  | shuffleChanged
  | repeatChanged
  | autoPlayChanged
  | filterExplicitContentChanged
  | setQueue
  deriving DecidableEq, Repr

/-- The environment variables the helper reads; one that is not set is empty. -/
structure Env where
  event : EventName
  trackId : Text := []
  name : Text := []
  artists : Text := []
  album : Text := []
  durationMs : Text := []
  covers : Text := []
  volume : Text := []

def replaceChar (c : Char) (replacement : Text) (text : Text) : Text :=
  text.flatMap fun d => if d = c then replacement else [d]

def esc (value : Text) : Text :=
  replaceChar '\r' "\\r".toList (replaceChar '\n' "\\n".toList
    (replaceChar '"' "\\\"".toList (replaceChar '\\' "\\\\".toList value)))

/-- The first line; a carriage return belongs to the line ending behind it. -/
def firstLine (text : Text) : Text :=
  let line := text.takeWhile fun c => c != '\n'
  if line.length < text.length && line.getLast? == some '\r' then line.dropLast else line

/-- `fs::write`. -/
def write (file : File) (content : Text) : List FileOp := [.truncate file, .fill file content]

def playbackState : EventName → Option Text
  | .paused => some "paused".toList
  | .stopped | .endOfTrack | .unavailable => some "stopped".toList
  | .playing | .trackChanged | .loading => some "playing".toList
  | _ => none

def json (state : Text) (env : Env) : Text :=
  "\x7b\"playback_state\":\"".toList ++ state ++
    "\",\"track_id\":\"".toList ++ esc env.trackId ++
    "\",\"title\":\"".toList ++ esc env.name ++
    "\",\"artist\":\"".toList ++ esc (replaceChar '\n' ", ".toList env.artists) ++
    "\",\"album\":\"".toList ++ esc env.album ++
    "\",\"duration_ms\":\"".toList ++ esc env.durationMs ++
    "\",\"artwork_url\":\"".toList ++ esc (firstLine env.covers) ++ "\"\x7d\n".toList

/-- The helper's operations on the files, in order. -/
def main (env : Env) : List FileOp :=
  if env.event = .volumeChanged then write .volume env.volume
  else
    (if env.event = .loading then [.rename .loading env.trackId] else []) ++
      match playbackState env.event with
      | none => []
      | some state =>
        if env.event ≠ .trackChanged then write .state state
        else [.rename .metadata (json state env)]

/-- What the engine knows about a track beyond what the player reads. -/
structure Catalogue (Uri : Type) where
  toId : Uri → Text
  name : Uri → Text
  artists : Uri → Text
  album : Uri → Text
  covers : Uri → Text

def decimal (n : Nat) : Text := Nat.toDigits 10 n

/-- The environment the event handler gives to the helper; it is not run without one. -/
def handleEvent {Uri : Type} (catalogue : Catalogue Uri) : PlayerEvent Uri → Option Env
  | .playRequestIdChanged _ => some { event := .playRequestIdChanged }
  | .trackChanged audioItem =>
    let id := audioItem.trackId
    some { event := .trackChanged, trackId := catalogue.toId id, name := catalogue.name id
           artists := catalogue.artists id, album := catalogue.album id
           durationMs := decimal audioItem.durationMs.toNat, covers := catalogue.covers id }
  | .stopped _ id => some { event := .stopped, trackId := catalogue.toId id }
  | .playing _ id _ => some { event := .playing, trackId := catalogue.toId id }
  | .paused _ id _ => some { event := .paused, trackId := catalogue.toId id }
  | .loading _ id _ => some { event := .loading, trackId := catalogue.toId id }
  | .preloading id => some { event := .preloading, trackId := catalogue.toId id }
  | .timeToPreloadNextTrack _ id => some { event := .preloadNext, trackId := catalogue.toId id }
  | .endOfTrack _ id => some { event := .endOfTrack, trackId := catalogue.toId id }
  | .unavailable _ id => some { event := .unavailable, trackId := catalogue.toId id }
  | .volumeChanged volume => some { event := .volumeChanged, volume := decimal volume.toNat }
  | .seeked _ id _ => some { event := .seeked, trackId := catalogue.toId id }
  | .positionCorrection _ id _ =>
    some { event := .positionCorrection, trackId := catalogue.toId id }
  | .sessionConnected .. => some { event := .sessionConnected }
  | .sessionDisconnected .. => some { event := .sessionDisconnected }
  | .sessionClientChanged .. => some { event := .sessionClientChanged }
  | .shuffleChanged _ => some { event := .shuffleChanged }
  | .repeatChanged .. => some { event := .repeatChanged }
  | .autoPlayChanged _ => some { event := .autoPlayChanged }
  | .filterExplicitContentChanged _ => some { event := .filterExplicitContentChanged }
  | .setQueue .. => some { event := .setQueue }
  | .positionChanged .. => none

def noFiles : Files := fun _ => none

/-- The loading marker is the only file that is written for one kind of event alone. -/
theorem loading_of_main (files : Files) (env : Env) :
    (main env).foldl FileOp.apply files .loading =
      if env.event = .loading then some env.trackId else files .loading := by
  obtain ⟨event, trackId, name, artists, album, durationMs, covers, volume⟩ := env
  cases event <;> simp [main, playbackState, write, FileOp.apply, Function.update]

end Metadata
