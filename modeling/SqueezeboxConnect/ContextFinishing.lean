import SqueezeboxConnect.ConnectCommands
import SqueezeboxConnect.ContextResolver
import SqueezeboxConnect.ContextRuns
import SqueezeboxConnect.Runs

/-!
# Finishing the resolution of contexts

The pages of a context are resolved one after another. The last one of its kind
also sets up the state: the transfer is finished, the context is shuffled, or the
tracks around the current one are filled in. Whether an entry is the last of its
kind is decided by counting entries, those that can never be resolved included,
and a page that cannot be fetched is dropped without another look. Log output,
the queue revision and the events for listeners are left out.
-/

namespace Connect

/-- The parts of the task that contexts are resolved with. -/
structure SpircTask where
  contextResolver : ContextResolver
  connectState : ConnectState
  transferState : Option TransferState

/-- What is read and drawn from outside while a context is handled. -/
structure Surroundings where
  now : Nat
  autoplay : Bool
  newSeed : Nat
  uuid : Nat → Nat → String
  transferUuid : Nat → String

def CONTEXT_FETCH_THRESHOLD : Nat := 2

def ConnectState.hasNextTracks (s : ConnectState) : Option Nat → Bool
  | some min => min ≤ s.player.nextTracks.length
  | none => !s.player.nextTracks.isEmpty

namespace SpircTask

open ContextResolver

/-- The context is applied, and what remains of it is queued; an error is only logged. -/
def load (t : SpircTask) (context : Context) (around : Surroundings) : SpircTask :=
  let (connectState, remaining) :=
    applyNextContext t.contextResolver.queue t.connectState context around.uuid
  let contextResolver := match remaining with
    | .ok (some remaining) => t.contextResolver.addList remaining around.now
    | .ok none | .error _ => t.contextResolver
  { t with contextResolver, connectState }

/-- The entry is the only one of its kind, for a context that is to be set up now. -/
def lastOfItsKind (queue : List ResolveContext) (next : ResolveContext) (active : ContextType) :
    Bool :=
  queue.countP (fun resolve => resolve.update = next.update) == 1 &&
    match next.update, active with
    | .default, .default | .autoplay, _ => true
    | .default, .autoplay => false

def addAutoplayResolvingWhenRequired (t : SpircTask) (around : Surroundings) : SpircTask :=
  let s := t.connectState
  let requireLoadNew := !s.hasNextTracks (some CONTEXT_FETCH_THRESHOLD) && around.autoplay &&
    s.contextUri != ""
  if requireLoadNew then
    let hasTracks := match s.getContext .autoplay with
      | .ok ctx => !ctx.tracks.vec.isEmpty
      | .error _ => false
    let resolve := .fromUri s.contextUri s.currentTrack.uri .autoplay
      (if hasTracks then .append else .replace)
    { t with contextResolver := t.contextResolver.add resolve around.now }
  else t

variable (smallRng : Nat → Rng)

/-- An error of the setup is only logged. -/
def setUp (t : SpircTask) (next : ResolveContext) (around : Surroundings) : SpircTask :=
  let s := t.connectState
  let finished : Reply Unit := match t.transferState with
    | some transfer => s.finishTransfer smallRng transfer around.newSeed around.transferUuid
    | none =>
      if s.shufflingContext && next.update == .default then s.shuffleNew smallRng around.newSeed
      else
        match s.getContext s.activeContext with
        | .ok ctx =>
          -- a cursor that was moved stands for a position that was found elsewhere
          if ctx.index.track = 0 then
            s.resetPlaybackToPosition
              (findIndexInContext ctx fun t => t.uri == s.currentTrack.uri).toOption
          else s.fillUpNextTracks
        | .error _ => s.fillUpNextTracks
  { t with connectState := finished.1.updateRestrictions, transferState := none }

def tryFinish (t : SpircTask) (around : Surroundings) : SpircTask × Bool :=
  match findNext t.contextResolver.queue with
  | none => (t, false)
  | some (next, _, _) =>
    if lastOfItsKind t.contextResolver.queue next t.connectState.activeContext then
      (t.setUp smallRng next around, true)
    else (t, false)

/-- The context that was asked for comes in, or could not be resolved. -/
def handleNextContext (t : SpircTask) (nextContext : Option Context) (around : Surroundings) :
    SpircTask × Bool :=
  match nextContext with
  | none =>
    let contextResolver := t.contextResolver.markNextUnavailable around.now
    ({ t with contextResolver := contextResolver.removeUsedAndInvalid }, false)
  | some context =>
    let (t, updateState) := (t.load context around).tryFinish smallRng around
    let t := if updateState then t.addAutoplayResolvingWhenRequired around else t
    ({ t with contextResolver := t.contextResolver.removeUsedAndInvalid }, updateState)

end SpircTask

end Connect

namespace ContextFinishing

open Runs Connect ContextResolver SpircTask

inductive Event where
  | applied (update : ContextType)
  | setUp
  deriving DecidableEq, Repr

/-- The task with what happened since its queue became non-empty, latest event first. -/
structure Traced where
  task : SpircTask
  events : List Event

namespace Traced

def queue (t : Traced) : List ResolveContext := t.task.contextResolver.queue

def active (t : Traced) : ContextType := t.task.connectState.activeContext

end Traced

inductive Input where
  | add (resolve : ResolveContext) (now : Nat)
  | nextContext (context : Option Context) (around : Surroundings)

/-- The entry whose context was applied without an error, if any. -/
def appliedBy (t : SpircTask) (context : Option Context) (around : Surroundings) : List Event :=
  match context, findNext t.contextResolver.queue with
  | some context, some (next, _, _) =>
    match (applyEntry next t.connectState context around.uuid).2 with
    | .ok _ => [.applied next.update]
    | .error _ => []
  | _, _ => []

def step (smallRng : Nat → Rng) (t : Traced) : Input → Traced
  | .add resolve now =>
    { task := { t.task with contextResolver := t.task.contextResolver.add resolve now }
      events := if t.queue = [] then [] else t.events }
  | .nextContext context around =>
    let (task, updateState) := t.task.handleNextContext smallRng context around
    { task
      events := (if updateState then [.setUp] else []) ++ appliedBy t.task context around ++
        t.events }

/-- An entry of the kind can still be resolved. -/
def Waits (update : ContextType) (queue : List ResolveContext) : Prop :=
  ∃ resolve ∈ queue, resolve.update = update ∧ resolve.resolveUri ≠ none

/-- The setup was run after the last page of the kind. -/
def SetUpSince (update : ContextType) (events : List Event) : Prop :=
  .setUp ∈ events.takeWhile fun event => event ≠ .applied update

/-- Once nothing of the active kind can be resolved any more, what was applied is set up. -/
def Finished (t : Traced) : Prop :=
  ¬ Waits t.active t.queue → .applied t.active ∈ t.events →
    SetUpSince t.active t.events ∧ t.task.transferState = none

instance (update : ContextType) (queue : List ResolveContext) : Decidable (Waits update queue) :=
  inferInstanceAs (Decidable (∃ resolve ∈ queue,
    resolve.update = update ∧ resolve.resolveUri ≠ none))

instance (update : ContextType) (events : List Event) : Decidable (SetUpSince update events) :=
  inferInstanceAs (Decidable (.setUp ∈ events.takeWhile fun event => event ≠ .applied update))

instance (t : Traced) : Decidable (Finished t) :=
  inferInstanceAs (Decidable (¬ Waits t.active t.queue → .applied t.active ∈ t.events →
    SetUpSince t.active t.events ∧ t.task.transferState = none))

/-- A page of the kind was applied and the state is not set up since. -/
def Due (update : ContextType) (events : List Event) : Prop :=
  .applied update ∈ events ∧ ¬ SetUpSince update events

/-- The entry for a page that comes without tracks. -/
def furtherPage (page : ContextPage) : Option ResolveContext :=
  if page.tracks.isEmpty then
    (page.pageUrl.filter fun url => url ≠ "").map fun url => .appendContext (pageUrlToUri url)
  else none

def furtherPages (pages : List ContextPage) : List ResolveContext := pages.filterMap furtherPage

/-- A page is added to a context that is loaded; another context needs tracks, but no local
ones. -/
def Accepts (s : ConnectState) (next : ResolveContext) (context : Context) : Prop :=
  match next.action with
  | .append => context.pages.length = 1 ∧ s.context ≠ none
  | .replace => (∃ page ∈ context.pages, page.tracks.isEmpty = false) ∧
      context.uri.any (startsWith · LOCAL_FILES_IDENTIFIER) = false

instance (s : ConnectState) (next : ResolveContext) (context : Context) :
    Decidable (Accepts s next context) := by
  unfold Accepts
  cases next.action <;> infer_instance

/-- The queue with the further pages of a context that is accepted. -/
def queueWith (t : Traced) (next : ResolveContext) (context : Context) (now : Nat) :
    List ResolveContext :=
  if Accepts t.task.connectState next context ∧ next.action = .replace then
    (t.task.contextResolver.addList (furtherPages context.pages) now).queue
  else t.queue

/-- Where the last entry of the active kind that can be resolved is used up, its context
was fetched and no other entry of the kind is left, or there is nothing to set up. -/
def Completes (t : Traced) : Input → Prop
  | .add _ _ => True
  | .nextContext context around =>
    match findNext t.queue with
    | none => True
    | some (next, _, idx) => next.update = t.active →
      match context with
      | none => Waits t.active (t.queue.drop (idx + 1)) ∨ ¬ Due t.active t.events
      | some context =>
        Waits t.active ((queueWith t next context around.now).drop (idx + 1)) ∨
          (queueWith t next context around.now).countP (fun resolve => resolve.update = t.active) =
            1 ∨
          ¬ (Accepts t.task.connectState next context ∨ Due t.active t.events)

/-! ## The queue -/

/-- The first entry that can be resolved, with what is in front of it and behind it. -/
structure First (queue front : List ResolveContext) (next : ResolveContext) (uri : String)
    (back : List ResolveContext) : Prop where
  split : queue = front ++ next :: back
  invalid : ∀ resolve ∈ front, resolve.resolveUri = none
  valid : next.resolveUri = some uri

theorem findSome_zipIdx {front : List ResolveContext} {next : ResolveContext} {uri : String}
    (invalid : ∀ resolve ∈ front, resolve.resolveUri = none) (valid : next.resolveUri = some uri)
    (back : List ResolveContext) (k : Nat) :
    ((front ++ next :: back).zipIdx k).findSome?
        (fun (next, idx) => next.resolveUri.map fun uri => (next, uri, idx)) =
      some (next, uri, k + front.length) := by
  induction front generalizing k with
  | nil => simp [valid]
  | cons first rest ih =>
    have skipped : first.resolveUri = none := invalid first (by simp)
    have later := ih (fun resolve inside => invalid resolve (by simp [inside])) (k + 1)
    rw [List.cons_append, List.zipIdx_cons, List.findSome?_cons]
    simp only [skipped, Option.map_none]
    rw [later, List.length_cons]
    congr 3
    omega

theorem findNext_none {queue : List ResolveContext}
    (invalid : ∀ resolve ∈ queue, resolve.resolveUri = none) : findNext queue = none := by
  rw [findNext, List.findSome?_eq_none_iff]
  rintro ⟨resolve, idx⟩ inside
  have member := List.fst_mem_of_mem_zipIdx inside
  simp only [invalid resolve member, Option.map_none]

theorem not_waits {queue : List ResolveContext} {update : ContextType}
    (invalid : ∀ resolve ∈ queue, resolve.resolveUri = none) : ¬ Waits update queue := by
  rintro ⟨resolve, inside, _, valid⟩
  exact valid (invalid resolve inside)

theorem waits_append {update : ContextType} {queue : List ResolveContext}
    (more : List ResolveContext) (waits : Waits update queue) : Waits update (queue ++ more) := by
  obtain ⟨resolve, inside, kind, valid⟩ := waits
  exact ⟨resolve, List.mem_append_left more inside, kind, valid⟩

/-- No entry can be resolved, or there is a first one that can. -/
theorem first_resolvable (queue : List ResolveContext) :
    (∀ resolve ∈ queue, resolve.resolveUri = none) ∨
      ∃ front next uri back, First queue front next uri back := by
  induction queue with
  | nil => exact Or.inl (by simp)
  | cons resolve rest ih =>
    cases found : resolve.resolveUri with
    | some uri => exact Or.inr ⟨[], resolve, uri, rest, rfl, by simp, found⟩
    | none =>
      rcases ih with invalid | ⟨front, next, uri, back, rfl, invalid, valid⟩
      · exact Or.inl (List.forall_mem_cons.mpr ⟨found, invalid⟩)
      · exact Or.inr ⟨resolve :: front, next, uri, back, rfl,
          List.forall_mem_cons.mpr ⟨found, invalid⟩, valid⟩

section First

variable {queue front back : List ResolveContext} {next : ResolveContext} {uri : String}
  (first : First queue front next uri back)
include first

theorem findNext_first : findNext queue = some (next, uri, front.length) := by
  have found := findSome_zipIdx first.invalid first.valid back 0
  rwa [Nat.zero_add, ← first.split] at found

theorem drop_first : queue.drop (front.length + 1) = back := by
  rw [first.split]
  simp

theorem first_append (more : List ResolveContext) :
    First (queue ++ more) front next uri (back ++ more) := by
  refine ⟨?_, first.invalid, first.valid⟩
  rw [first.split, List.append_assoc, List.cons_append]

theorem waits_first (update : ContextType) :
    Waits update queue ↔ next.update = update ∨ Waits update back := by
  rw [first.split]
  constructor
  · rintro ⟨resolve, inside, kind, found⟩
    rcases List.mem_append.mp inside with skipped | inside
    · exact absurd (first.invalid resolve skipped) found
    · rcases List.mem_cons.mp inside with rfl | behind
      · exact Or.inl kind
      · exact Or.inr ⟨resolve, behind, kind, found⟩
  · rintro (kind | ⟨resolve, behind, kind, found⟩)
    · exact ⟨next, by simp, kind, by simp [first.valid]⟩
    · exact ⟨resolve, by simp [behind], kind, found⟩

end First

section Resolver

variable (r : ContextResolver)

theorem enqueue_appends (resolve : ResolveContext) :
    ∃ more, (r.enqueue resolve).queue = r.queue ++ more := by
  rw [enqueue]
  split
  · exact ⟨[], (List.append_nil _).symm⟩
  · exact ⟨[resolve], rfl⟩

theorem add_appends (resolve : ResolveContext) (now : Nat) :
    ∃ more, (r.add resolve now).queue = r.queue ++ more := by
  rw [add]
  split
  · exact enqueue_appends r resolve
  · split
    · exact enqueue_appends (r.forget resolve) resolve
    · exact ⟨[], (List.append_nil _).symm⟩

theorem addList_appends (resolve : List ResolveContext) (now : Nat) :
    ∃ more, (r.addList resolve now).queue = r.queue ++ more := by
  induction resolve generalizing r with
  | nil => exact ⟨[], (List.append_nil _).symm⟩
  | cons first rest ih =>
    obtain ⟨added, one⟩ := add_appends r first now
    obtain ⟨more, others⟩ := ih (r.add first now)
    refine ⟨added ++ more, ?_⟩
    rw [addList, List.foldl_cons, ← List.append_assoc, ← one]
    exact others

theorem markNextUnavailable_queue (now : Nat) : (r.markNextUnavailable now).queue = r.queue := by
  rw [markNextUnavailable]
  split <;> rfl

theorem removeUsedAndInvalid_first {front back : List ResolveContext} {next : ResolveContext}
    {uri : String} (first : First r.queue front next uri back) :
    r.removeUsedAndInvalid.queue = back := by
  rw [removeUsedAndInvalid, findNext_first first]
  dsimp only
  rw [List.drop_drop, drop_first first]

end Resolver

/-! ## The active context -/

section Active

variable (s : ConnectState)

theorem fillContextFromPage_active (page : ContextPage) (uuid : Nat → String) :
    (s.fillContextFromPage page uuid).1.activeContext = s.activeContext := by
  rw [ConnectState.fillContextFromPage]
  split <;> rfl

theorem loadPages_active (uuid : Nat → Nat → String) (pages : List ContextPage) (k : Nat) :
    (ConnectState.loadPages uuid pages k s).1.activeContext = s.activeContext := by
  induction pages generalizing k s with
  | nil => rfl
  | cons page rest ih =>
    rw [ConnectState.loadPages]
    split
    · rw [ih, fillContextFromPage_active]
    · exact ih s (k + 1)

theorem replaceContext_active (context : Context) (ty : ContextType) (page : ContextPage)
    (uuid : Nat → String) :
    (s.replaceContext context ty page uuid).activeContext = s.activeContext := by
  cases ty with
  | autoplay => rfl
  | default =>
    simp only [ConnectState.replaceContext, ConnectState.replaceDefault]
    split
    · exact (ConnectState.keepPosition_keeps s _).1
    · rfl

theorem updateContext_active (context : Context) (ty : ContextType)
    (uuid : Nat → Nat → String) :
    (s.updateContext context ty uuid).1.activeContext = s.activeContext := by
  simp only [ConnectState.updateContext]
  split
  · rfl
  · split
    · rfl
    · split
      · rfl
      · rename_i page _
        split
        · exact replaceContext_active s context ty page (uuid 0)
        · rw [loadPages_active, replaceContext_active]

theorem mergeContext_active (newPage : Option ContextPage) :
    (s.mergeContext newPage).activeContext = s.activeContext := by
  cases newPage <;> rfl

theorem applyEntry_active (next : ResolveContext) (context : Context)
    (uuid : Nat → Nat → String) :
    (applyEntry next s context uuid).1.activeContext = s.activeContext := by
  cases action : next.action with
  | append =>
    simp only [applyEntry, action]
    split
    · exact fillContextFromPage_active s _ _
    · rfl
  | replace =>
    simp only [applyEntry, action]
    split
    · rw [mergeContext_active, updateContext_active]
    · exact updateContext_active s context next.update uuid

end Active

/-! ## Applying a context -/

section Applying

theorem loadPages_uris (uuid : Nat → Nat → String) (pages : List ContextPage) (k : Nat)
    (s : ConnectState) :
    (ConnectState.loadPages uuid pages k s).2.map ResolveContext.appendContext =
      furtherPages pages := by
  induction pages generalizing k s with
  | nil => rfl
  | cons page rest ih =>
    rw [ConnectState.loadPages, furtherPages, List.filterMap_cons, furtherPage, ← furtherPages]
    cases page.tracks.isEmpty with
    | false => exact ih (k + 1) _
    | true =>
      rw [← ih (k + 1) s, if_neg (by simp), if_pos rfl, List.map_append]
      cases page.pageUrl.filter fun url => url ≠ "" <;> rfl

theorem furtherPages_eraseP (pages : List ContextPage) :
    furtherPages (pages.eraseP fun page => !page.tracks.isEmpty) = furtherPages pages := by
  induction pages with
  | nil => rfl
  | cons page rest ih =>
    rw [furtherPages, furtherPages] at ih
    cases empty : page.tracks.isEmpty with
    | false =>
      have nothing : furtherPage page = none := by simp [furtherPage, empty]
      rw [List.eraseP_cons_of_pos (by simp [empty]), furtherPages, furtherPages,
        List.filterMap_cons_none nothing]
    | true =>
      rw [List.eraseP_cons_of_neg (by simp [empty]), furtherPages, furtherPages,
        List.filterMap_cons, List.filterMap_cons, ih]

theorem updateContext_accepts {context : Context}
    (filled : ∃ page ∈ context.pages, page.tracks.isEmpty = false)
    (allowed : context.uri.any (startsWith · LOCAL_FILES_IDENTIFIER) = false) (s : ConnectState)
    (ty : ContextType) (uuid : Nat → Nat → String) :
    ∃ uris, (s.updateContext context ty uuid).2 = .ok uris ∧
      (uris.getD []).map ResolveContext.appendContext = furtherPages context.pages := by
  obtain ⟨page, inside, tracks⟩ := filled
  obtain ⟨first, found⟩ : ∃ first, context.pages.find? (fun page => !page.tracks.isEmpty) =
      some first :=
    Option.isSome_iff_exists.mp (List.find?_isSome.mpr ⟨page, inside, by simp [tracks]⟩)
  have some_tracks : context.pages.all (fun page => page.tracks.isEmpty) = false :=
    List.all_eq_false.mpr ⟨page, inside, by simp [tracks]⟩
  simp only [ConnectState.updateContext, some_tracks, allowed, found, Bool.false_eq_true, if_false]
  rw [← furtherPages_eraseP]
  split
  · next nothing =>
    rw [List.isEmpty_iff.mp nothing]
    exact ⟨none, rfl, rfl⟩
  · exact ⟨_, rfl, loadPages_uris uuid _ 1 _⟩

theorem updateContext_refuses {context : Context}
    (refuses : ¬ ((∃ page ∈ context.pages, page.tracks.isEmpty = false) ∧
      context.uri.any (startsWith · LOCAL_FILES_IDENTIFIER) = false)) (s : ConnectState)
    (ty : ContextType) (uuid : Nat → Nat → String) :
    ∃ e, (s.updateContext context ty uuid).2 = .error e := by
  rw [ConnectState.updateContext]
  cases all : context.pages.all fun page => page.tracks.isEmpty with
  | true => exact ⟨_, rfl⟩
  | false =>
    obtain ⟨page, inside, tracks⟩ := List.all_eq_false.mp all
    have forbidden : context.uri.any (startsWith · LOCAL_FILES_IDENTIFIER) = true := by
      rw [← Bool.not_eq_false]
      exact fun allowed => refuses ⟨⟨page, inside, by simpa using tracks⟩, allowed⟩
    simp only [forbidden, Bool.false_eq_true, if_false, if_true]
    exact ⟨_, rfl⟩

variable {s : ConnectState} {next : ResolveContext} {context : Context}

theorem applyEntry_accepts (accepts : Accepts s next context) (uuid : Nat → Nat → String) :
    ∃ remaining, (applyEntry next s context uuid).2 = .ok remaining ∧
      remaining.getD [] = if next.action = .replace then furtherPages context.pages else [] := by
  rw [Accepts] at accepts
  rw [applyEntry]
  cases action : next.action with
  | append =>
    rw [action] at accepts
    obtain ⟨page, single⟩ := List.length_eq_one_iff.mp accepts.1
    obtain ⟨ctx, loaded⟩ := Option.ne_none_iff_exists'.mp accepts.2
    refine ⟨none, ?_, rfl⟩
    simp only [single, ConnectState.fillContextFromPage, loaded]
    rfl
  | replace =>
    rw [action] at accepts
    obtain ⟨uris, updated, same⟩ := updateContext_accepts accepts.1 accepts.2 s next.update uuid
    refine ⟨uris.map (List.map .appendContext), ?_, ?_⟩
    · simp only [updated]
      rfl
    · rw [if_pos rfl, ← same]
      cases uris <;> rfl

theorem applyEntry_refuses (refuses : ¬ Accepts s next context) (uuid : Nat → Nat → String) :
    ∃ e, (applyEntry next s context uuid).2 = .error e := by
  rw [Accepts] at refuses
  rw [applyEntry]
  cases action : next.action with
  | append =>
    rw [action] at refuses
    dsimp only
    split
    · next page single =>
      have missing : s.context = none := by
        by_contra loaded
        exact refuses ⟨by rw [single]; rfl, loaded⟩
      rw [ConnectState.fillContextFromPage, missing]
      exact ⟨_, rfl⟩
    · exact ⟨_, rfl⟩
  | replace =>
    rw [action] at refuses
    obtain ⟨e, failed⟩ := updateContext_refuses refuses s next.update uuid
    exact ⟨.state e, by simp only [failed]; rfl⟩

end Applying

/-! ## One round -/

section Round

variable {t : SpircTask} {front back : List ResolveContext} {next : ResolveContext} {uri : String}

/-- A context that comes in is applied to the entry it was asked for. -/
theorem load_first (first : First t.contextResolver.queue front next uri back) (context : Context)
    (around : Surroundings) :
    (∃ more, First (t.load context around).contextResolver.queue front next uri (back ++ more)) ∧
      (t.load context around).connectState.activeContext = t.connectState.activeContext := by
  refine ⟨?_, ?_⟩
  · have appended : ∃ more, (t.load context around).contextResolver.queue =
        t.contextResolver.queue ++ more := by
      simp only [load]
      split
      · exact addList_appends _ _ _
      · exact ⟨[], (List.append_nil _).symm⟩
      · exact ⟨[], (List.append_nil _).symm⟩
    obtain ⟨more, appended⟩ := appended
    rw [appended]
    exact ⟨more, first_append first more⟩
  · simp only [load, applyNextContext, findNext_first first]
    exact applyEntry_active t.connectState next context around.uuid

theorem load_queue (traced : Traced) (first : First traced.queue front next uri back)
    (context : Context) (around : Surroundings) :
    (traced.task.load context around).contextResolver.queue =
      queueWith traced next context around.now := by
  have found : findNext traced.task.contextResolver.queue = _ := findNext_first first
  simp only [load, applyNextContext, found]
  by_cases accepts : Accepts traced.task.connectState next context
  · obtain ⟨remaining, applied, further⟩ := applyEntry_accepts accepts around.uuid
    have queued : (traced.task.contextResolver.addList (remaining.getD []) around.now).queue =
        queueWith traced next context around.now := by
      rw [queueWith, further]
      by_cases action : next.action = .replace
      · rw [if_pos action, if_pos ⟨accepts, action⟩]
      · rw [if_neg action, if_neg fun both => action both.2]
        rfl
    simp only [applied]
    rw [← queued]
    cases remaining <;> rfl
  · obtain ⟨e, failed⟩ := applyEntry_refuses accepts around.uuid
    simp only [failed, queueWith, accepts, false_and, if_false]
    rfl

theorem lastOfItsKind_active (queue : List ResolveContext) (next : ResolveContext) :
    lastOfItsKind queue next next.update =
      (queue.countP (fun resolve => resolve.update = next.update) == 1) := by
  cases kind : next.update with
  | default => simp [lastOfItsKind, kind]
  | autoplay => simp [lastOfItsKind, kind]

variable (smallRng : Nat → Rng)

theorem handleNextContext_failed (first : First t.contextResolver.queue front next uri back)
    (around : Surroundings) :
    (t.handleNextContext smallRng none around).2 = false ∧
      (t.handleNextContext smallRng none around).1.contextResolver.queue = back ∧
      (t.handleNextContext smallRng none around).1.connectState = t.connectState := by
  refine ⟨rfl, ?_, rfl⟩
  rw [← markNextUnavailable_queue t.contextResolver around.now] at first
  exact removeUsedAndInvalid_first _ first

/-- The last entry of its kind sets the state up. -/
theorem handleNextContext_last {context : Context} {around : Surroundings}
    (first : First (t.load context around).contextResolver.queue front next uri back)
    (last : lastOfItsKind (t.load context around).contextResolver.queue next
      (t.load context around).connectState.activeContext = true) :
    (t.handleNextContext smallRng (some context) around).2 = true := by
  simp only [handleNextContext, tryFinish, findNext_first first, last, if_true]

theorem handleNextContext_more {context : Context} {around : Surroundings}
    (first : First (t.load context around).contextResolver.queue front next uri back)
    (more : lastOfItsKind (t.load context around).contextResolver.queue next
      (t.load context around).connectState.activeContext = false) :
    (t.handleNextContext smallRng (some context) around).2 = false ∧
      (t.handleNextContext smallRng (some context) around).1.contextResolver.queue = back ∧
      (t.handleNextContext smallRng (some context) around).1.connectState =
        (t.load context around).connectState := by
  have unfinished : (t.load context around).tryFinish smallRng around =
      (t.load context around, false) := by
    simp only [tryFinish, findNext_first first, more, Bool.false_eq_true, if_false]
  simp only [handleNextContext, unfinished, Bool.false_eq_true, if_false]
  exact ⟨trivial, removeUsedAndInvalid_first _ first, trivial⟩

theorem handleNextContext_idle
    (invalid : ∀ resolve ∈ t.contextResolver.queue, resolve.resolveUri = none)
    (context : Option Context) (around : Surroundings) :
    (t.handleNextContext smallRng context around).2 = false ∧
      (t.handleNextContext smallRng context around).1.connectState = t.connectState := by
  have nothing := findNext_none invalid
  cases context with
  | none =>
    exact ⟨rfl, rfl⟩
  | some context =>
    have unchanged : t.load context around = t := by
      simp only [load, applyNextContext, nothing]
    have unfinished : t.tryFinish smallRng around = (t, false) := by
      simp only [tryFinish, nothing]
    simp only [handleNextContext, unchanged, unfinished, Bool.false_eq_true, if_false, and_self]

end Round

/-! ## Events -/

theorem due_setUp (update : ContextType) (events : List Event) :
    ¬ Due update (.setUp :: events) := by
  rintro ⟨_, missing⟩
  exact missing (by simp [SetUpSince])

theorem due_applied (update other : ContextType) (events : List Event) :
    Due update (.applied other :: events) ↔ other = update ∨ Due update events := by
  by_cases same : other = update
  · subst same
    simp [Due, SetUpSince]
  · have different : update ≠ other := fun h => same h.symm
    simp [Due, SetUpSince, same, different]

/-- A page can still come in, or there is nothing to set up. -/
def Settled (t : Traced) : Prop := Waits t.active t.queue ∨ ¬ Due t.active t.events

/-- A setup is the end of a transfer. -/
def Consumed (t : Traced) : Prop := .setUp ∈ t.events → t.task.transferState = none

theorem finished_iff {t : Traced} (consumed : Consumed t) :
    Finished t ↔ Settled t := by
  constructor
  · intro finished
    by_cases waits : Waits t.active t.queue
    · exact Or.inl waits
    · refine Or.inr ?_
      rintro ⟨applied, missing⟩
      exact missing (finished waits applied).1
  · rintro (waits | settled) idle applied
    · exact absurd waits idle
    · have since : SetUpSince t.active t.events := by
        by_contra missing
        exact settled ⟨applied, missing⟩
      have member : Event.setUp ∈ t.events := List.takeWhile_subset _ since
      exact ⟨since, consumed member⟩

theorem appliedBy_idle {t : SpircTask}
    (invalid : ∀ resolve ∈ t.contextResolver.queue, resolve.resolveUri = none)
    (context : Option Context) (around : Surroundings) : appliedBy t context around = [] := by
  cases context with
  | none => rfl
  | some context => simp only [appliedBy, findNext_none invalid]

theorem due_appliedBy {t : SpircTask} {next : ResolveContext} {uri : String} {idx : Nat}
    (found : findNext t.contextResolver.queue = some (next, uri, idx)) (context : Context)
    (around : Surroundings) (update : ContextType) (events : List Event) :
    Due update (appliedBy t (some context) around ++ events) ↔
      next.update = update ∧ Accepts t.connectState next context ∨ Due update events := by
  simp only [appliedBy, found]
  by_cases accepts : Accepts t.connectState next context
  · obtain ⟨remaining, applied, -⟩ := applyEntry_accepts accepts around.uuid
    rw [applied, List.singleton_append, due_applied, and_iff_left accepts]
  · obtain ⟨e, failed⟩ := applyEntry_refuses accepts around.uuid
    rw [failed, List.nil_append, and_iff_right_of_imp (fun yes => absurd yes accepts)]
    simp [accepts]

theorem setUp_appliedBy (t : SpircTask) (context : Option Context) (around : Surroundings) :
    Event.setUp ∉ appliedBy t context around := by
  unfold appliedBy
  split
  · split <;> simp
  · simp

/-! ## Runs -/

section Steps

variable (smallRng : Nat → Rng)

theorem transferState_tryFinish (t : SpircTask) (around : Surroundings) :
    (t.tryFinish smallRng around).1.transferState =
      if (t.tryFinish smallRng around).2 then none else t.transferState := by
  rw [tryFinish]
  split
  · rfl
  · split <;> rfl

theorem transferState_addAutoplay (t : SpircTask) (around : Surroundings) :
    (t.addAutoplayResolvingWhenRequired around).transferState = t.transferState := by
  rw [addAutoplayResolvingWhenRequired]
  split <;> rfl

/-- A pending transfer is taken by the setup and by nothing else. -/
theorem transferState_handleNextContext (t : SpircTask) (context : Option Context)
    (around : Surroundings) :
    (t.handleNextContext smallRng context around).1.transferState =
      if (t.handleNextContext smallRng context around).2 then none else t.transferState := by
  cases context with
  | none => rfl
  | some context =>
    have taken := transferState_tryFinish smallRng (t.load context around) around
    simp only [handleNextContext]
    split
    · rw [transferState_addAutoplay]
      exact taken
    · exact taken

theorem step_consumed (t : Traced) (input : Input) (consumed : Consumed t) :
    Consumed (step smallRng t input) := by
  cases input with
  | add resolve now =>
    intro member
    by_cases empty : t.queue = []
    · simp only [step, empty, if_true, List.not_mem_nil] at member
    · simp only [step, empty, if_false] at member
      exact consumed member
  | nextContext context around =>
    intro member
    change (t.task.handleNextContext smallRng context around).1.transferState = none
    rw [transferState_handleNextContext]
    simp only [step, List.mem_append, setUp_appliedBy, or_false] at member
    split
    · rfl
    · rename_i unfinished
      rw [if_neg unfinished] at member
      exact consumed (by simpa using member)

theorem step_add {t : Traced} (resolve : ResolveContext) (now : Nat) (settled : Settled t) :
    Settled (step smallRng t (.add resolve now)) := by
  obtain ⟨more, added⟩ := add_appends t.task.contextResolver resolve now
  rcases settled with waits | nothing
  · have queue : (step smallRng t (.add resolve now)).queue = t.queue ++ more := added
    refine Or.inl ?_
    rw [queue]
    exact waits_append more waits
  · refine Or.inr ?_
    by_cases empty : t.queue = []
    · simp only [step, empty, if_true]
      rintro ⟨applied, _⟩
      cases applied
    · simp only [step, empty, if_false]
      exact nothing

section Round

variable {t : Traced} {front back : List ResolveContext} {next : ResolveContext} {uri : String}
  {around : Surroundings}

theorem step_failed (first : First t.queue front next uri back) :
    Settled (step smallRng t (.nextContext none around)) ↔
      Waits t.active back ∨ ¬ Due t.active t.events := by
  obtain ⟨unfinished, rest, same⟩ := handleNextContext_failed smallRng first around
  simp only [Settled, Traced.active, Traced.queue, step, unfinished, rest, same]
  exact Iff.rfl

theorem step_fetched {context : Context}
    (first : First (t.task.load context around).contextResolver.queue front next uri back)
    (active : (t.task.load context around).connectState.activeContext = t.active) :
    Settled (step smallRng t (.nextContext (some context) around)) ↔
      lastOfItsKind (t.task.load context around).contextResolver.queue next t.active = true ∨
        Waits t.active back ∨
        ¬ Due t.active (appliedBy t.task (some context) around ++ t.events) := by
  cases last : lastOfItsKind (t.task.load context around).contextResolver.queue next t.active with
  | true =>
    rw [← active] at last
    have done := handleNextContext_last smallRng first last
    refine ⟨fun _ => Or.inl rfl, fun _ => Or.inr ?_⟩
    simp only [step, done, if_true]
    exact due_setUp _ _
  | false =>
    rw [← active] at last
    obtain ⟨unfinished, rest, same⟩ := handleNextContext_more smallRng first last
    simp only [Bool.false_eq_true, false_or]
    rw [← active]
    simp only [Settled, Traced.active, Traced.queue, step, unfinished, rest, same]
    exact Iff.rfl

end Round

/-- A context that comes in leaves nothing behind exactly if it completes its kind. -/
theorem step_nextContext {t : Traced} (context : Option Context) (around : Surroundings)
    (settled : Settled t) :
    Settled (step smallRng t (.nextContext context around)) ↔
      Completes t (.nextContext context around) := by
  rcases first_resolvable t.queue with invalid | ⟨front, next, uri, back, first⟩
  · -- nothing could be resolved before, so nothing was due
    have nothing := settled.resolve_left (not_waits invalid)
    obtain ⟨unfinished, same⟩ := handleNextContext_idle smallRng invalid context around
    simp only [Completes, findNext_none invalid, iff_true]
    refine Or.inr ?_
    simp only [Traced.active, step, unfinished, same, appliedBy_idle invalid]
    exact nothing
  · have found := findNext_first first
    rw [Settled, waits_first first, or_assoc] at settled
    cases context with
    | none =>
      rw [step_failed smallRng first]
      simp only [Completes, found, drop_first first]
      by_cases own : next.update = t.active
      · simp only [own, forall_const]
      · simp only [own, false_imp_iff, iff_true]
        exact settled.resolve_left own
    | some context =>
      obtain ⟨⟨more, loaded⟩, active⟩ := load_first first context around
      rw [step_fetched smallRng loaded active, due_appliedBy found]
      simp only [Completes, found, ← load_queue t first context around, drop_first loaded]
      by_cases own : next.update = t.active
      · simp only [own, forall_const, true_and]
        rw [← own, lastOfItsKind_active, beq_iff_eq, or_left_comm]
      · simp only [own, false_imp_iff, iff_true, false_and, false_or]
        rcases settled.resolve_left own with waits | nothing
        · exact Or.inr (Or.inl (waits_append more waits))
        · exact Or.inr (Or.inr nothing)

theorem step_settled (t : Traced) (input : Input) (settled : Settled t) :
    Settled (step smallRng t input) ↔ Completes t input := by
  cases input with
  | add resolve now => exact iff_of_true (step_add smallRng resolve now settled) trivial
  | nextContext context around => exact step_nextContext smallRng context around settled

end Steps

/-- Resolution finishes all along exactly if whatever uses up the last entry of the active
kind that can be resolved completes the kind. -/
theorem finished_iff_completes (smallRng : Nat → Rng) (task : SpircTask) (inputs : List Input) :
    (∀ front, front <+: inputs → Finished (run (step smallRng) ⟨task, []⟩ front)) ↔
      Along (step smallRng) Completes ⟨task, []⟩ inputs := by
  have start : Consumed ⟨task, []⟩ := fun member => absurd member List.not_mem_nil
  have fresh : Finished ⟨task, []⟩ := fun _ applied => absurd applied List.not_mem_nil
  refine throughout_iff_along (step_consumed smallRng) ?_ start fresh
  intro t input consumed finished
  rw [finished_iff (step_consumed smallRng t input consumed)]
  exact step_settled smallRng t input ((finished_iff consumed).mp finished)

def entryFor (uri : String) : ResolveContext := .fromUri uri "" .default .replace

def contextOf (uri : String) : Context :=
  ⟨some uri, none, [], none, [⟨none, [⟨some "spotify:track:a", some "a", none, []⟩], []⟩]⟩

def surroundings : Surroundings := ⟨0, false, 0, fun _ _ => "", fun _ => ""⟩

/-- A transfer of a track that waits for its context. -/
def transferring : SpircTask :=
  { contextResolver := ⟨[], []⟩
    connectState := ContextRuns.loaded [⟨"spotify:track:b", "b", [], .context⟩] none
    transferState := some ⟨false, [], some ⟨some "spotify:track:a", some "a", none, []⟩,
      some "spotify:playlist:a", none⟩ }

def twoEntries (second : String) : List Input :=
  [.add (entryFor "spotify:playlist:a") 0, .add (entryFor second) 0,
    .nextContext (some (contextOf "spotify:playlist:a")) surroundings]

example : Finished (run (step fun _ _ => 0) ⟨transferring, []⟩
    [.add (entryFor "spotify:playlist:a") 0,
      .nextContext (some (contextOf "spotify:playlist:a")) surroundings]) := by
  decide +kernel

/-- Behind the page that is applied there is a search, which cannot be resolved, or a
playlist that cannot be fetched. The state is not set up and the transfer waits on. -/
theorem secondEntry_unfinished :
    ¬ Finished (run (step fun _ _ => 0) ⟨transferring, []⟩ (twoEntries "spotify:search:b")) ∧
    ¬ Finished (run (step fun _ _ => 0) ⟨transferring, []⟩
      (twoEntries "spotify:playlist:b" ++ [.nextContext none surroundings])) := by
  decide +kernel

end ContextFinishing
