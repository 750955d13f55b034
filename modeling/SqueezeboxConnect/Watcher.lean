import SqueezeboxConnect.Runs
import SqueezeboxConnect.Metadata

/-!
# The watcher of the applet

Ten times a second the applet reads four small files and drives the local
playback by what has changed. The playback object of a player is known by a
number. What the firmware does with the volume, the log and the popup are left
out; the calls the watcher makes are kept as a history.
-/

namespace Watcher

open Runs BridgeLoop Metadata Words

/-- `%s` of a pattern. -/
def isSpace (c : Char) : Bool := c.toNat == 32 || (9 ≤ c.toNat && c.toNat ≤ 13)

/-- A file without the white space at its end. -/
def readSmall (content : Option Text) : Option Text :=
  content.map fun value => (value.reverse.dropWhile isSpace).reverse

/-- `tonumber` of a decimal number; the helper writes nothing else. -/
def tonumber (text : Text) : Option Nat :=
  if text ≠ [] ∧ text.all Char.isDigit then some (Nat.ofDigitChars 10 text 0) else none

/-- What `eventData` returns. -/
structure Sample where
  loading : Option Text
  stream : Option Text
  playbackState : Option Text
  volume : Option Nat

def eventData (files : Files) (streamMarker : Option Text) : Sample where
  loading := readSmall (files .loading)
  stream := readSmall streamMarker
  playbackState := readSmall (files .state)
  volume := (readSmall (files .volume)).bind tonumber

structure Player where
  playback : Option Nat
  deriving DecidableEq

/-- The players the firmware has at the moment. -/
structure Players where
  localPlayer : Option Player
  currentPlayer : Option Player

structure SpotifyPlayback where
  playback : Option Nat
  paused : Bool
  remoteVolume : Option Nat
  /-- `self.playback.stream`. -/
  stream : Bool
  deriving DecidableEq

namespace SpotifyPlayback

def init : SpotifyPlayback := ⟨none, false, none, false⟩

variable (self : SpotifyPlayback)

/-- The local player exists and uses the playback object that was started. -/
def drives (players : Players) : Bool :=
  players.localPlayer.any fun player => player.playback == self.playback

def setRemoteVolume (players : Players) (percent : Nat) : SpotifyPlayback × Bool :=
  let self := { self with remoteVolume := some (min 100 percent) }
  (self, self.playback.isSome && self.drives players)

def start (players : Players) : SpotifyPlayback × Bool :=
  match players.localPlayer.or players.currentPlayer with
  | none => (self, false)
  | some player =>
    let self := { self with playback := player.playback }
    if self.playback.isNone then (self, false)
    else
      let self := { self with paused := false, stream := true }
      match self.remoteVolume with
      | some percent => ((self.setRemoteVolume players percent).1, true)
      | none => (self, true)

/-- The result tells whether there was something to stop. -/
def stop : SpotifyPlayback × Bool :=
  ({ self with playback := none, paused := false, stream := false }, self.playback.isSome)

def pause (players : Players) : SpotifyPlayback × Bool :=
  if self.playback.isSome && self.drives players then ({ self with paused := true }, true)
  else (self, false)

def resume (players : Players) : SpotifyPlayback × Bool :=
  if self.playback.isNone || !self.paused then (self, false)
  else ({ self with paused := false }, self.drives players && self.stream)

end SpotifyPlayback

/-- A call of the watcher, with its result. -/
inductive Call where
  | start (connected : Bool)
  | stop (stopped : Bool)
  | pause (paused : Bool)
  | resume (resumed : Bool)
  deriving DecidableEq

structure Applet where
  lastLoadingTrack : Option Text
  lastStreamMarker : Option Text
  lastPlaybackState : Option Text
  lastRemoteVolume : Option Nat
  playback : SpotifyPlayback
  calls : List Call

def pausedText : Text := "paused".toList

def stoppedText : Text := "stopped".toList

def playingText : Text := "playing".toList

namespace Applet

def init : Applet := ⟨none, none, none, none, .init, []⟩

variable (a : Applet) (players : Players)

def callStart : Applet :=
  let (playback, connected) := a.playback.start players
  { a with playback := playback, calls := a.calls ++ [.start connected] }

def callStop : Applet :=
  let (playback, stopped) := a.playback.stop
  { a with playback := playback, calls := a.calls ++ [.stop stopped] }

def callPause : Applet :=
  let (playback, paused) := a.playback.pause players
  { a with playback := playback, calls := a.calls ++ [.pause paused] }

/-- Playback that cannot be resumed is started. -/
def callResume : Applet :=
  let (playback, resumed) := a.playback.resume players
  let a := { a with playback := playback, calls := a.calls ++ [.resume resumed] }
  if resumed then a else a.callStart players

def streamChanged (d : Sample) : Bool :=
  d.stream.isSome && d.stream != a.lastStreamMarker

/-- The remote playback goes on where it was paused. -/
def resumes (d : Sample) : Bool :=
  d.playbackState == some playingText && a.lastPlaybackState == some pausedText &&
    !a.streamChanged d

/-- The reaction to a playback state that is not the one seen last. -/
def react (d : Sample) : Applet :=
  if d.playbackState = some pausedText then a.callPause players
  else if d.playbackState = some stoppedText then a.callStop
  else if a.resumes d then a.callResume players
  else a

def followVolume (d : Sample) : Applet :=
  match d.volume with
  | none => a
  | some volume =>
    if d.volume = a.lastRemoteVolume then a
    else
      let percent := min 100 ((200 * volume + 65535) / 131070)
      { a with
        playback := (a.playback.setRemoteVolume players percent).1
        lastRemoteVolume := d.volume }

def followState (d : Sample) : Applet :=
  if d.playbackState.isSome && d.playbackState != a.lastPlaybackState then a.react players d else a

def followStream (streamChanged : Bool) : Applet :=
  if streamChanged then a.callStart players else a

/-- What the watcher has seen is only remembered; none of the calls reads it. -/
def remember (d : Sample) : Applet :=
  { a with
    lastLoadingTrack := d.loading.or a.lastLoadingTrack
    lastPlaybackState := d.playbackState.or a.lastPlaybackState
    lastStreamMarker := d.stream.or a.lastStreamMarker }

def watch (d : Sample) : Applet :=
  let streamChanged := a.streamChanged d
  let a := a.followState players d
  let a := a.followStream players streamChanged
  (a.remember d).followVolume players d

end Applet

end Watcher
