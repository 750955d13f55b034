import SqueezeboxConnect.ShellCommands
import SqueezeboxConnect.Watcher

/-!
# The command lines of the applet

The applet starts the engine, and the download of a picture, by lines for the
shell. The paths, the device name and the url in them are put between single
quotes. Each of the lines is read as the commands that it is meant to be, with
the name or the url as one argument.
-/

namespace ShellQuoting

open ShellWords ShellCommands Metadata Words

section Lines

def ROOT : Text := "/usr/share/jive/applets/SpotifyConnect".toList
def USER : Text := "/etc/squeezeplay/userpath/SpotifyConnect".toList
def FIFO : Text := USER ++ "/audio.fifo".toList
def PID : Text := USER ++ "/librespot.pid".toList
def BPID : Text := USER ++ "/bridge.pid".toList
def STATUS : Text := USER ++ "/status.json".toList
def METADATA : Text := USER ++ "/metadata.json".toList
def METADATA_STATE : Text := METADATA ++ ".state".toList
def METADATA_VOLUME : Text := METADATA ++ ".volume".toList
def METADATA_LOADING : Text := METADATA ++ ".loading".toList
def STREAM_MARKER : Text := USER ++ "/stream.ready".toList
def LOG : Text := USER ++ "/engine.log".toList

/-- The `gsub` of both functions, between quotes. -/
def enclosed (text : Text) : Text :=
  "'".toList ++ replaceChar '\'' "'\\''".toList text ++ "'".toList

def q (s : Text) : Text := enclosed s

def quote (v : Text) : Text := enclosed v

/-- What the service finds: its processes, its files, and the settings of the applet. -/
structure Service where
  isRunning : Bool
  credentialsExist : Bool
  deviceName : Option Text
  eth1 : Option Text
  wlan0 : Option Text
  eth0 : Option Text

variable (s : Service) (pairing : Bool)

def defaultName : Text :=
  match s.eth1 <|> s.wlan0 <|> s.eth0 with
  | none => "Squeezebox Radio".toList
  | some content =>
    let mac := content.filter fun c => !Watcher.isSpace c
    if 2 ≤ mac.length then
      "Squeezebox Radio-".toList ++ (mac.drop (mac.length - 2)).map Char.toUpper
    else "Squeezebox Radio".toList

def deviceName : Text :=
  let name := s.deviceName.getD "Squeezebox Radio".toList
  if name = "Squeezebox Radio".toList then defaultName s else name

/-- Whether the engine is told to ask for a device. -/
def authenticates : Bool := pairing || !s.credentialsExist

def auth (enabled : Bool) : Text := if enabled then " --enable-device-auth".toList else []

def metadataCommand : Text := ROOT ++ "/spotify-metadata ".toList ++ METADATA

def cmdFront : Text :=
  "( exec ".toList ++ q (ROOT ++ "/spotify-supervisor".toList) ++ " --status ".toList ++ q STATUS ++
    " -- ".toList ++ q (ROOT ++ "/librespot".toList) ++ " --name ".toList

def cmdBack (auth : Text) : Text :=
  " --onevent ".toList ++ q metadataCommand ++ " --backend pipe --device ".toList ++ q FIFO ++
    " --passthrough --disable-audio-cache".toList ++
    " --disable-discovery --system-cache ".toList ++ q USER ++ " --bitrate 96".toList ++ auth ++
    " >>".toList ++ q LOG ++
    " 2>&1 ) & echo $! >".toList ++ q PID

def cmd (name auth : Text) : Text := cmdFront ++ (q name ++ cmdBack auth)

/-- The lines that are the same at every start. -/
def preparation : List Text :=
  ["for n in ogg-http-bridge librespot ".toList ++ "spotify-supervisor; do ".toList ++
      "for p in `pidof $n 2>/dev/null`; do ".toList ++ "kill -KILL $p 2>/dev/null; ".toList ++
      "done; done; rm -f ".toList ++ q PID ++ " ".toList ++ q BPID ++ " ".toList ++ q FIFO,
    "mkdir -p ".toList ++ q USER ++ "; chmod 700 ".toList ++ q USER ++ "; rm -f ".toList ++
      q STATUS ++ " ".toList ++ q METADATA ++ " ".toList ++ q METADATA_STATE ++ " ".toList ++
      q METADATA_VOLUME ++ " ".toList ++ q METADATA_LOADING ++ " ".toList ++ q STREAM_MARKER,
    "test -p ".toList ++ q FIFO ++ " || mkfifo ".toList ++ q FIFO ++ "; chmod 600 ".toList ++
      q FIFO,
    "( exec 3<>".toList ++ q FIFO ++ "; exec ".toList ++ q (ROOT ++ "/ogg-http-bridge".toList) ++
      " 17880 --stream-marker ".toList ++ q STREAM_MARKER ++ " --loading-marker ".toList ++
      q METADATA_LOADING ++ " <".toList ++ q FIFO ++ " >>".toList ++ q LOG ++
      " 2>&1 ) & echo $! >".toList ++ q BPID]

/-- The lines that `start` hands to the shell. -/
def start : List Text :=
  if s.isRunning then [] else preparation ++ [cmd (deviceName s) (auth (authenticates s pairing))]

def picturePath (generation : Nat) : Text :=
  "/tmp/spotify-connect-artwork-".toList ++ (toString generation).toList ++ ".img".toList

/-- The line that `_download` hands to the shell. -/
def download (url : Text) (generation : Nat) : Text :=
  let path := picturePath generation
  let done := path ++ ".done".toList
  "( wget -q -T 8 -O - ".toList ++ (quote url ++ (" | dd of=".toList ++ quote path ++
    (" bs=1024 count=513; touch ".toList ++ (quote done ++
      " ) </dev/null >/dev/null 2>&1 &".toList))))

end Lines

section Commands

/-- A program with its arguments. -/
def call (args : List Text) : Command := .simple (args.map .text) []

/-- The errors go where the output goes. -/
def joined : Redirection := ⟨some ['2'], .greatand, .text ['1']⟩

def noErrors : Redirection := ⟨some ['2'], .great, .text "/dev/null".toList⟩

/-- A command in the background, and the file that gets its process id. -/
def launched (command : Command) (file : Text) : Command :=
  .sequence (.background (.subshell command []))
    (.simple [.text "echo".toList, .parameter ['!']] [⟨none, .great, .text file⟩])

def supervised (name : Text) (enabled : Bool) : Command :=
  .simple (["exec".toList, ROOT ++ "/spotify-supervisor".toList, "--status".toList, STATUS,
      "--".toList, ROOT ++ "/librespot".toList, "--name".toList, name, "--onevent".toList,
      metadataCommand, "--backend".toList, "pipe".toList, "--device".toList, FIFO,
      "--passthrough".toList, "--disable-audio-cache".toList, "--disable-discovery".toList,
      "--system-cache".toList, USER, "--bitrate".toList, "96".toList].map .text ++
        if enabled then [.text "--enable-device-auth".toList] else [])
    [⟨none, .dgreat, .text LOG⟩, joined]

def prepared : List Command :=
  [.sequence
      (.forIn ['n'] (["ogg-http-bridge".toList, "librespot".toList,
          "spotify-supervisor".toList].map .text)
        (.forIn ['p'] [.output "pidof $n 2>/dev/null".toList]
          (.simple [.text "kill".toList, .text "-KILL".toList, .parameter ['p']] [noErrors])))
      (call ["rm".toList, "-f".toList, PID, BPID, FIFO]),
    .sequence (call ["mkdir".toList, "-p".toList, USER])
      (.sequence (call ["chmod".toList, "700".toList, USER])
        (call ["rm".toList, "-f".toList, STATUS, METADATA, METADATA_STATE, METADATA_VOLUME,
          METADATA_LOADING, STREAM_MARKER])),
    .sequence (.orIf (call ["test".toList, "-p".toList, FIFO]) (call ["mkfifo".toList, FIFO]))
      (call ["chmod".toList, "600".toList, FIFO]),
    launched
      (.sequence (.simple [.text "exec".toList] [⟨some ['3'], .lessgreat, .text FIFO⟩])
        (.simple (["exec".toList, ROOT ++ "/ogg-http-bridge".toList, "17880".toList,
            "--stream-marker".toList, STREAM_MARKER, "--loading-marker".toList,
            METADATA_LOADING].map .text)
          [⟨none, .less, .text FIFO⟩, ⟨none, .dgreat, .text LOG⟩, joined]))
      BPID]

/-- The commands that a start is meant to execute. -/
def intended (s : Service) (pairing : Bool) : List Command :=
  if s.isRunning then []
  else prepared ++ [launched (supervised (deviceName s) (authenticates s pairing)) PID]

/-- The commands that a download is meant to execute. -/
def fetching (url path : Text) : Command :=
  .background (.subshell
    (.sequence
      (.pipe (call ["wget".toList, "-q".toList, "-T".toList, "8".toList, "-O".toList, "-".toList,
          url])
        (call ["dd".toList, "of=".toList ++ path, "bs=1024".toList, "count=513".toList]))
      (call ["touch".toList, path ++ ".done".toList]))
    [⟨none, .less, .text "/dev/null".toList⟩, ⟨none, .great, .text "/dev/null".toList⟩, joined])

end Commands

theorem enclosed_eq (text : Text) : enclosed text = ShellWords.quote text := by
  have replacement : "'\\''".toList = ['\'', '\\', '\'', '\''] := by decide
  rw [enclosed, replaceChar, replacement]
  rfl

/-- Between the end of a token and a delimiter, what is written is one word with this value. -/
def OneWord (written value : Text) : Prop :=
  ∃ word, arg word = some (.text value) ∧ ∀ front back, Boundary (run between front).1 →
    (∀ c ∈ back.head?, delimits c = true) →
      lex (front ++ (written ++ back)) = (lex front).bind fun before =>
        (lex back).map fun behind => before ++ .word word :: behind

theorem oneWord_enclosed (text : Text) : OneWord (enclosed text) text := by
  refine ⟨[.quoted text], rfl, fun front back boundary delimited => ?_⟩
  rw [enclosed_eq, lex_quote text boundary delimited]

theorem read_preparation : preparation.map readLine = prepared.map some := by decide +kernel

section Tokens

def plainWord (text : String) : Token := .word (text.toList.map .plain)

def quotedWord (text : Text) : Token := .word [.quoted text]

/-- The end of a background command whose errors go where the output goes. -/
def ending : List Token :=
  [.io ['2'], .op .greatand, plainWord "1", .op .rparen, .op .amp, plainWord "echo",
    .word [.parameter ['!']], .op .great, quotedWord PID]

theorem delimited {text : Text} (blank : text.head? = some ' ') :
    ∀ c ∈ text.head?, delimits c = true := by
  rw [blank]
  rintro c ⟨⟩
  rfl

theorem lex_cmdFront : Boundary (run between cmdFront).1 ∧
    lex cmdFront = some [.op .lparen, plainWord "exec",
      quotedWord (ROOT ++ "/spotify-supervisor".toList), plainWord "--status", quotedWord STATUS,
      plainWord "--", quotedWord (ROOT ++ "/librespot".toList), plainWord "--name"] := by
  have state : (run between cmdFront).1 = between := by decide +kernel
  exact ⟨.inl state, by decide +kernel⟩

theorem lex_cmdBack (enabled : Bool) :
    lex (cmdBack (auth enabled)) = some ([plainWord "--onevent", quotedWord metadataCommand,
      plainWord "--backend", plainWord "pipe", plainWord "--device", quotedWord FIFO,
      plainWord "--passthrough", plainWord "--disable-audio-cache",
      plainWord "--disable-discovery", plainWord "--system-cache", quotedWord USER,
      plainWord "--bitrate", plainWord "96"] ++
        (if enabled then [plainWord "--enable-device-auth"] else []) ++
        .op .dgreat :: quotedWord LOG :: ending) := by
  revert enabled
  decide +kernel

theorem read_cmd (name : Text) (enabled : Bool) :
    readLine (cmd name (auth enabled)) = some (launched (supervised name enabled) PID) := by
  rw [readLine, cmd, q, enclosed_eq, lex_quote name lex_cmdFront.1 (delimited rfl), lex_cmdFront.2,
    lex_cmdBack, Option.bind_some, Option.map_some, Option.bind_some]
  cases enabled
  · rfl
  · rfl

theorem read_download (url : Text) (generation : Nat) :
    readLine (download url generation) = some (fetching url (picturePath generation)) := by
  have last : lex " ) </dev/null >/dev/null 2>&1 &".toList = some [.op .rparen, .op .less,
      plainWord "/dev/null", .op .great, plainWord "/dev/null", .io ['2'], .op .greatand,
      plainWord "1", .op .amp] := by decide +kernel
  have touch : Boundary (run between " bs=1024 count=513; touch ".toList).1 ∧
      lex " bs=1024 count=513; touch ".toList = some [plainWord "bs=1024", plainWord "count=513",
        .op .semi, plainWord "touch"] := by
    have state : (run between " bs=1024 count=513; touch ".toList).1 = between := by decide +kernel
    exact ⟨.inl state, by decide +kernel⟩
  have dd : run between " | dd of=".toList = (⟨.word, "of=".toList.map .plain⟩,
      [.op .pipe, plainWord "dd"]) := by decide +kernel
  have wget : Boundary (run between "( wget -q -T 8 -O - ".toList).1 ∧
      lex "( wget -q -T 8 -O - ".toList = some [.op .lparen, plainWord "wget", plainWord "-q",
        plainWord "-T", plainWord "8", plainWord "-O", plainWord "-"] := by
    have state : (run between "( wget -q -T 8 -O - ".toList).1 = between := by decide +kernel
    exact ⟨.inl state, by decide +kernel⟩
  have file : run between (" | dd of=".toList ++ ShellWords.quote (picturePath generation)) =
      (⟨.word, "of=".toList.map .plain ++ [.quoted (picturePath generation)]⟩,
        [.op .pipe, plainWord "dd"]) := by
    rw [run_append, dd, run_quote_word]
    rfl
  unfold download
  simp only [quote, enclosed_eq]
  rw [readLine, lex_quote url wget.1 (delimited rfl), wget.2,
    lex_word (congrArg Prod.fst file) (List.mem_append_right _ List.mem_cons_self) (delimited rfl),
    lex_quote (picturePath generation ++ ".done".toList) touch.1 (delimited rfl), touch.2, last,
    file]
  rfl

end Tokens

/-- Whatever is quoted is one word, and the lines with the device name and with the url consist of
the commands that are meant. -/
theorem lines_asIntended (s : Text) : OneWord (q s) s ∧ OneWord (quote s) s ∧
    (∀ service pairing,
      (start service pairing).map readLine = (intended service pairing).map some) ∧
    ∀ generation,
      readLine (download s generation) = some (fetching s (picturePath generation)) := by
  refine ⟨oneWord_enclosed s, oneWord_enclosed s, fun service pairing => ?_, read_download s⟩
  rw [start, intended]
  split
  · rfl
  · rw [List.map_append, List.map_append, read_preparation, List.map_singleton, read_cmd]
    rfl

end ShellQuoting
