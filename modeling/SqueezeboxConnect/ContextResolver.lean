import SqueezeboxConnect.ConnectContext

/-!
# The resolver of contexts

The entries of the resolver wait for their contexts to be fetched. The first
entry with a uri to resolve says what is done with the context that comes in.
-/

namespace Connect

inductive Resolve where
  | uri (uri : String)
  | context (context : Context)
  deriving DecidableEq, Repr

inductive ContextAction where
  | append
  | replace
  deriving DecidableEq, Repr

structure ResolveContext where
  resolve : Resolve
  fallback : Option String
  update : ContextType
  action : ContextAction
  deriving DecidableEq, Repr

inductive ContextResolverError where
  | noNext
  | unexpectedPagesSize (size : Nat)
  deriving DecidableEq, Repr

/-- The errors of applying a context, those of the state among them. -/
inductive ApplyError where
  | resolver (why : ContextResolverError)
  | state (why : StateError)
  deriving DecidableEq, Repr

def validResolveUri (uri : String) : Option String :=
  if uri = "" ∨ startsWith uri SEARCH_IDENTIFIER then none else some uri

def findValidUri (contextUri : Option String) (firstPage : Option ContextPage) : Option String :=
  (contextUri.bind validResolveUri).or
    (firstPage.bind fun page => page.tracks.head?.bind fun track => track.uri)

namespace ResolveContext

/-- The entry for a further page of the default context. -/
def appendContext (uri : String) : ResolveContext := ⟨.uri uri, none, .default, .append⟩

/-- The uri that is used to resolve the context, which may not be the context uri. -/
def resolveUri (r : ResolveContext) : Option String :=
  (match r.resolve with
    | .uri uri => validResolveUri uri
    | .context ctx => findValidUri ctx.uri ctx.pages.head?).or r.fallback

end ResolveContext

namespace ContextResolver

/-- The first entry that can be resolved, with its uri and its place. -/
def findNext (queue : List ResolveContext) : Option (ResolveContext × String × Nat) :=
  queue.zipIdx.findSome? fun (next, idx) => next.resolveUri.map fun uri => (next, uri, idx)

/-- What an entry does with the context that was fetched for it. -/
def applyEntry (next : ResolveContext) (s : ConnectState) (context : Context)
    (uuid : Nat → Nat → String) :
    ConnectState × Except ApplyError (Option (List ResolveContext)) :=
  match next.action with
  | .append =>
    match context.pages with
    | [page] =>
      let (s, filled) := s.fillContextFromPage page (uuid 0)
      (s, (filled.map fun _ => none).mapError .state)
    | pages => (s, .error (.resolver (.unexpectedPagesSize pages.length)))
  | .replace =>
    let (s, remaining) := s.updateContext context next.update uuid
    -- the entry's own context may know more of the tracks, also where the update failed
    let s := match next.resolve with
      | .context ctx => s.mergeContext ctx.pages.getLast?
      | .uri _ => s
    (s, (remaining.map fun uris => uris.map (List.map .appendContext)).mapError .state)

def applyNextContext (queue : List ResolveContext) (s : ConnectState) (context : Context)
    (uuid : Nat → Nat → String) :
    ConnectState × Except ApplyError (Option (List ResolveContext)) :=
  match findNext queue with
  | none => (s, .error (.resolver .noNext))
  | some (next, _, _) => applyEntry next s context uuid

end ContextResolver

/-- The entries that wait, and when the unavailable ones were tried last. -/
structure ContextResolver where
  queue : List ResolveContext
  unavailableContexts : List (ResolveContext × Nat)
  deriving DecidableEq, Repr

/-- The nanoseconds after which an unavailable context is retried. -/
def RETRY_UNAVAILABLE : Nat := 3600000000000

/-- The entry for a context that is known by its uri. -/
def ResolveContext.fromUri (uri fallback : String) (update : ContextType)
    (action : ContextAction) : ResolveContext :=
  ⟨.uri uri, if fallback = "" then none else some fallback, update, action⟩

namespace ContextResolver

variable (r : ContextResolver)

def forget (resolve : ResolveContext) : ContextResolver :=
  { r with unavailableContexts := r.unavailableContexts.filter fun tried => tried.1 ≠ resolve }

def enqueue (resolve : ResolveContext) : ContextResolver :=
  if resolve ∈ r.queue then r else { r with queue := r.queue ++ [resolve] }

def add (resolve : ResolveContext) (now : Nat) : ContextResolver :=
  match r.unavailableContexts.lookup resolve with
  | none => r.enqueue resolve
  | some lastTry =>
    if RETRY_UNAVAILABLE < now - lastTry then (r.forget resolve).enqueue resolve else r

def addList (resolve : List ResolveContext) (now : Nat) : ContextResolver :=
  resolve.foldl (fun r resolve => r.add resolve now) r

def removeUsedAndInvalid : ContextResolver :=
  match findNext r.queue with
  | none => { r with queue := r.queue.drop 1 }
  | some (_, _, remove) => { r with queue := (r.queue.drop remove).drop 1 }

def markNextUnavailable (now : Nat) : ContextResolver :=
  match findNext r.queue with
  | none => r
  | some (next, _, _) =>
    { r with unavailableContexts := (next, now) :: (r.forget next).unavailableContexts }

end ContextResolver

end Connect
