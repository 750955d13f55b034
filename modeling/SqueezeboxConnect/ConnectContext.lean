import SqueezeboxConnect.Connect

/-!
# Contexts of the Connect state

How the pages of a context message become the tracks of the default or the
autoplay context, how a context is replaced by a newer version of itself, and
how it is reset. Log output is left out. Where a track comes without a uid,
the random one it is given is an input.
-/

namespace Connect

/-- `str::starts_with`. -/
def startsWith (text identifier : String) : Bool := identifier.toList.isPrefixOf text.toList

/-- `str::contains`. -/
def containsText (text identifier : String) : Bool :=
  text.toList.tails.any identifier.toList.isPrefixOf

/-- `str::replace`; `skip` characters are part of an occurrence already replaced. -/
def replaceFrom (text replacement : List Char) : Nat → List Char → List Char
  | _, [] => []
  | skip + 1, _ :: rest => replaceFrom text replacement skip rest
  | 0, c :: rest =>
    if text.isPrefixOf (c :: rest) then
      replacement ++ replaceFrom text replacement (text.length - 1) rest
    else c :: replaceFrom text replacement 0 rest

def LOCAL_FILES_IDENTIFIER : String := "spotify:local-files"

def SEARCH_IDENTIFIER : String := "spotify:search"

structure ContextTrack where
  uri : Option String
  uid : Option String
  gid : Option (List UInt8)
  metadata : Metadata
  deriving DecidableEq, Repr

structure ContextPage where
  pageUrl : Option String
  tracks : List ContextTrack
  metadata : Metadata
  deriving DecidableEq, Repr

/-- The message with the pages of a context. -/
structure Context where
  uri : Option String
  url : Option String
  metadata : Metadata
  restrictions : Option Restrictions
  pages : List ContextPage
  deriving DecidableEq, Repr

inductive ResetContext where
  | completely
  | defaultIndex
  | whenDifferent (uri : String)
  deriving DecidableEq, Repr

/-- All entries of a map are put into another one. -/
def Metadata.insertAll (m new : Metadata) : Metadata := new.foldl (fun m e => m.insert e.1 e.2) m

/-- The uri of the item that a page url leads to. -/
def pageUrlToUri (pageUrl : String) : String :=
  let text := pageUrl.toList
  let rest := if "hm://".toList.isPrefixOf text then text.drop 5 else text
  let parts := ((rest.splitOn '/').dropWhile fun part => part ≠ "spotify".toList).take 3
  String.ofList ([':'].intercalate parts)

/-- The item a context track stands for. -/
def ContextTrack.item (t : ContextTrack) : Except StateError SpotifyUri :=
  match t.uri.filter fun uri => uri ≠ "" with
  | some uri =>
    if uri.toList.contains '?' then .error (.invalidTrackUri (some uri))
    else (SpotifyUri.fromUri uri.toList).mapError .uri
  | none =>
    match t.gid.filter fun gid => gid ≠ [] with
    | some gid => ((SpotifyId.fromRaw gid).map .track).mapError fun why => .uri (.id why)
    | none => .error (.invalidTrackUri none)

/-- The uri under which an item is played; `unknown` items are taken for tracks. -/
def playedUri (id : SpotifyUri) : String :=
  String.ofList (replaceFrom "unknown".toList "track".toList 0 id.toUri)

def StateContext.moveTo (ctx : StateContext) (track : Nat) : StateContext :=
  { ctx with index := { ctx.index with track } }

def StateContext.rewind (ctx : StateContext) : StateContext := { ctx with index := ⟨0, 0⟩ }

def findIndexInContext (ctx : StateContext) (f : ProvidedTrack → Bool) : Except StateError Nat :=
  (ctx.tracks.vec.findIdx? f).elim
    (.error (.canNotFindTrackInContext none ctx.tracks.vec.length)) .ok

namespace ConnectState

variable (s : ConnectState)

/-- An absent track reads as an empty message. -/
def currentTrack : ProvidedTrack := s.player.track.getD .new

def contextUri : String := s.player.contextUri

def differentContextUri (uri : String) : Bool :=
  s.contextUri != uri || startsWith uri SEARCH_IDENTIFIER

/-- The default context goes back to the order it was loaded in. -/
def unshuffleContext : ConnectState :=
  { s with context := s.context.map fun ctx => { ctx with
      metadata := (ctx.metadata.remove "shuffle_seed").remove "initial_track"
      tracks := ctx.tracks.unshuffle } }

def dropContexts : ConnectState :=
  { s with
    context := none
    autoplayContext := none
    player := { s.player with contextUri := "", contextUrl := "" } }

def rewindContexts : ConnectState :=
  { s with
    context := s.context.map StateContext.rewind
    autoplayContext := s.autoplayContext.map StateContext.rewind }

def resetContext (resetAs : ResetContext) : ConnectState :=
  let s' := s.unshuffleContext
  let s' := match resetAs with
    | .completely => s'.dropContexts
    | .defaultIndex => s'.rewindContexts
    | .whenDifferent uri => if s.differentContextUri uri then s'.dropContexts else s'
  let s' := { s' with fillUpContext := .default }
  (s'.setActiveContext .default).updateRestrictions

/-- The track that is kept for an item of a context. -/
def contextToProvidedTrack (ctxTrack : ContextTrack) (contextUri : Option String)
    (contextIndex : Option Nat) (pageMetadata : Option Metadata) (provider : Option Provider)
    (uuid : String) : Except StateError ProvidedTrack :=
  ctxTrack.item.map fun id =>
    let uri := playedUri id
    let provider := if s.unavailableUri.contains uri then .unavailable
      else provider.getD .context
    let metadata := (pageMetadata.getD []).insertAll ctxTrack.metadata
    let metadata := contextUri.elim metadata fun contextUri =>
      (metadata.insert "entity_uri" contextUri).insert "context_uri" contextUri
    let metadata := contextIndex.elim metadata fun index =>
      metadata.insert "context_index" (toString index)
    let metadata := if provider = .autoplay then metadata.insert "autoplay.is_autoplay" "true"
      else metadata
    { uri, uid := (ctxTrack.uid.filter fun uid => uid ≠ "").getD uuid, metadata, provider }

/-- Tracks that cannot be converted are left out, but counted for the index. -/
def stateContextFromPage (page : ContextPage) (metadata : Metadata)
    (restrictions : Option Restrictions) (newContextUri : Option String)
    (contextLength : Option Nat) (provider : Option Provider) (uuid : Nat → String) :
    StateContext :=
  let newContextUri := newContextUri.getD s.contextUri
  let tracks := page.tracks.zipIdx.filterMap fun (track, i) =>
    (s.contextToProvidedTrack track (some newContextUri) (contextLength.map (· + i))
      (some page.metadata) provider (uuid i)).toOption
  { tracks := .ofVec tracks, metadata, restrictions, index := ⟨0, 0⟩ }

/-- The tracks of a further page of the default context. -/
def furtherTracks (page : ContextPage) (uuid : Nat → String) : List ProvidedTrack :=
  let ctxLen := s.context.map fun ctx => ctx.tracks.vec.length
  (s.stateContextFromPage page [] none none ctxLen none uuid).tracks.vec

def fillContextFromPage (page : ContextPage) (uuid : Nat → String) : Reply Unit :=
  match s.context with
  | none => (s, .error (.noContext .default))
  | some ctx =>
    let tracks := (s.furtherTracks page uuid).foldl ShuffleVec.push ctx.tracks
    ({ s with context := some { ctx with tracks } }, .ok ())

/-- The place of the latest previous track that the context has. -/
def findFirstPrevTrackIndex (ctx : StateContext) : Option Nat :=
  s.player.prevTracks.reverse.findSome? fun prevTrack =>
    ctx.tracks.vec.findIdx? fun t => prevTrack.uri == t.uri

/-- Where to go on in a newer version of the context: an index, or the one to fall
back to. Neither a place of a track nor the cursor less 80 overflows when one is
added. -/
def findLastIndexInNewContext (newContext : StateContext) : Option (Except Nat Nat) :=
  s.context.map fun ctx =>
    let isQueuedItem := s.currentTrack.isQueue || s.currentTrack.isFromQueue
    let newIndex :=
      if SPOTIFY_MAX_NEXT_TRACKS_SIZE ≤ ctx.index.track then
        some (ctx.index.track - SPOTIFY_MAX_NEXT_TRACKS_SIZE)
      else if isQueuedItem then s.findFirstPrevTrackIndex newContext
      else newContext.tracks.vec.findIdx? fun current => s.currentTrack.uri == current.uri
    newIndex.elim (.error s.currentIndex) fun i => .ok (i + 1)

/-- The position is kept; the next tracks are to be loaded from there again. -/
def keepPosition (newContext : StateContext) : ConnectState × StateContext :=
  match s.findLastIndexInNewContext newContext with
  | none => (s, newContext)
  | some newIndex =>
    let s := match newIndex with
      | .ok _ => s
      | .error _ => s.setPlayer fun p => { p with index := none }
    let s := { s with autoplayContext := s.autoplayContext.map (StateContext.moveTo · 0) }
    let i := match newIndex with
      | .ok i | .error i => i
    (s.clearNextTracks, newContext.moveTo i)

theorem keepPosition_keeps (newContext : StateContext) :
    (s.keepPosition newContext).1.activeContext = s.activeContext ∧
      (s.keepPosition newContext).1.player.track = s.player.track ∧
      (s.keepPosition newContext).2.tracks = newContext.tracks := by
  rw [keepPosition]
  split
  · exact ⟨rfl, rfl, rfl⟩
  · rename_i newIndex _
    cases newIndex <;> exact ⟨rfl, rfl, rfl⟩

/-- The default context is replaced by the tracks of a page. -/
def replaceDefault (context : Context) (page : ContextPage) (uuid : Nat → String) : ConnectState :=
  let newContext := s.stateContextFromPage page context.metadata context.restrictions context.uri
    (some 0) none uuid
  let (s, newContext) :=
    if !startsWith s.contextUri SEARCH_IDENTIFIER && context.uri == some s.contextUri then
      s.keepPosition newContext
    else (s, newContext)
  let url := (context.url.filter fun url => !containsText url SEARCH_IDENTIFIER).getD ""
  { s with
    context := some newContext
    player := { s.player with contextUrl := url, contextUri := context.uri.getD "" } }

def replaceAutoplay (context : Context) (page : ContextPage) (uuid : Nat → String) : ConnectState :=
  { s with autoplayContext := some (s.stateContextFromPage page context.metadata
      context.restrictions context.uri none (some .autoplay) uuid) }

def replaceContext (context : Context) (ty : ContextType) (page : ContextPage)
    (uuid : Nat → String) : ConnectState :=
  match ty with
  | .default => s.replaceDefault context page uuid
  | .autoplay => s.replaceAutoplay context page uuid

/-- The further pages are filled in, or their uris are returned to be resolved. -/
def loadPages (uuid : Nat → Nat → String) :
    List ContextPage → Nat → ConnectState → ConnectState × List String
  | [], _, s => (s, [])
  | page :: rest, k, s =>
    if !page.tracks.isEmpty then loadPages uuid rest (k + 1) (s.fillContextFromPage page (uuid k)).1
    else
      let (s, uris) := loadPages uuid rest (k + 1) s
      (s, ((page.pageUrl.filter fun url => url ≠ "").map pageUrlToUri).toList ++ uris)

/-- `uuid` gives the random uids for each of the pages. -/
def updateContext (context : Context) (ty : ContextType) (uuid : Nat → Nat → String) :
    Reply (Option (List String)) :=
  let hasTracks := fun page : ContextPage => !page.tracks.isEmpty
  if context.pages.all fun page => page.tracks.isEmpty then (s, .error .contextHasNoTracks)
  else if context.uri.any (startsWith · LOCAL_FILES_IDENTIFIER) then
    (s, .error .unsupportedLocalPlayback)
  else
    match context.pages.find? hasTracks with
    | none => (s, .error .contextHasNoTracks)
    | some page =>
      let s := s.replaceContext context ty page (uuid 0)
      let nextContexts := context.pages.eraseP hasTracks
      if nextContexts.isEmpty then (s, .ok none)
      else
        let (s, uris) := loadPages uuid nextContexts 1 s
        (s, .ok (some uris))

/-- What another context knows of a track is added to the track. -/
def mergeTrack (tracks : List ProvidedTrack) (newTrack : ContextTrack) : List ProvidedTrack :=
  match newTrack.uri.filter fun uri => uri ≠ "" with
  | none => tracks
  | some uri =>
    match tracks.findIdx? fun t => t.uri == uri with
    | none => tracks
    | some position => tracks.modify position fun t => { t with
        metadata := t.metadata.insertAll newTrack.metadata
        uid := newTrack.uid.getD t.uid }

def mergeContext (newPage : Option ContextPage) : ConnectState :=
  match newPage with
  | none => s
  | some page => { s with context := s.context.map fun ctx => { ctx with
      tracks := { ctx.tracks with vec := page.tracks.foldl mergeTrack ctx.tracks.vec } } }

end ConnectState

end Connect
