import SqueezeboxConnect.HandlerMaps
import SqueezeboxConnect.SubscriberMaps

/-!
# The handlers and subscribers of the dealer

Request handlers and subscriptions are registered by uri, before the connection
is made or later, and every message may remove subscribers. `handles` is meant
to tell whether there is anybody for a uri, without dispatching anything.
-/

namespace DealerRequests

open Words

variable {H M σ : Type}

/-- The error of the map is told apart by its text only; both are `aborted`. -/
inductive AddHandlerError where
  | alreadyHandled
  | invalidUri (uri : Text)
  deriving DecidableEq

inductive SubscriptionError where
  | invalidUri (uri : Text)
  deriving DecidableEq

def addHandler (map : HandlerMap H) (uri : Text) (handler : H) :
    Except AddHandlerError Unit × HandlerMap H :=
  match splitUri uri with
  | none => (.error (.invalidUri uri), map)
  | some split =>
    let inserted := map.insert split handler
    (inserted.1.mapError fun _ => .alreadyHandled, inserted.2)

def removeHandler (map : HandlerMap H) (uri : Text) : Option H × HandlerMap H :=
  match splitUri uri with
  | none => (none, map)
  | some split => map.remove split

/-- The uris before an invalid one stay subscribed to. -/
def subscribe (map : SubscriberMap M) (tx : M) : List Text →
    Except SubscriptionError Unit × SubscriberMap M
  | [] => (.ok (), map)
  | uri :: uris =>
    match splitUri uri with
    | none => (.error (.invalidUri uri), map)
    | some split => subscribe (map.insert split tx) tx uris

def handles (reqMap : HandlerMap H) (msgMap : SubscriberMap M) (uri : Text) : Bool :=
  if reqMap.contains uri then true
  else match splitUri uri with
    | none => false
    | some split => msgMap.contains split

/-- What the builder and the dealer share. -/
structure Registry (H M : Type) where
  messageHandlers : SubscriberMap M
  requestHandlers : HandlerMap H

namespace Registry

def new : Registry H M := ⟨default, default⟩

/-- The map after a message with this uri was dispatched, and whether there was a subscriber.
The closure sends the message and tells whether that worked. -/
def dispatchMessage (r : Registry H M) (send : σ → M → Bool × σ) (state : σ) (uri : Text) :
    Bool × Registry H M :=
  match splitUri uri with
  | none => (false, r)
  | some split =>
    let retained := r.messageHandlers.retain send state split
    (retained.handledByAny, { r with messageHandlers := retained.map })

/-- The handler that a request with this uri is given to. -/
def requestHandler (r : Registry H M) (uri : Text) : Option H :=
  match splitUri uri with
  | none => none
  | some split => r.requestHandlers.get split

end Registry

end DealerRequests

namespace DealerRegistry

open DealerRequests Runs Tables Words

variable {H M σ : Type}

section Peopled

open SubscriberMaps

variable {m next : SubscriberMap M} {component : Text} {send : σ → M → Bool × σ} {state : σ}

/-- Every child has a subscriber, at its node or below. -/
inductive Peopled : SubscriberMap M → Prop where
  | mk {m : SubscriberMap M}
      (children : ∀ component next, m.children.lookup component = some next → Peopled next)
      (somebody : ∀ component next, m.children.lookup component = some next →
        ∃ path, next.subscribers path ≠ []) : Peopled m

theorem peopled_iff : Peopled m ↔
    AllValues (fun next => Peopled next ∧ ∃ path, next.subscribers path ≠ []) m.children := by
  constructor
  · rintro ⟨children, somebody⟩ component next there
    exact ⟨children component next there, somebody component next there⟩
  · intro values
    exact .mk (fun component next there => (values component next there).1)
      fun component next there => (values component next there).2

theorem peopled_default : Peopled (default : SubscriberMap M) :=
  peopled_iff.mpr fun _ _ there => by simp [default] at there

section

variable (peopled : Peopled m)
include peopled

theorem peopled_child (component : Text) : Peopled (orDefault m.children component) :=
  allValues_orDefault (fun key next there => (peopled_iff.mp peopled key next there).1)
    peopled_default component

theorem exists_subscriber (filled : m.isEmpty = false) : ∃ path, m.subscribers path ≠ [] := by
  by_cases here : m.subscribed = []
  · have entries : m.children ≠ [] := by
      simpa [SubscriberMap.isEmpty, here] using filled
    obtain ⟨component, next, there⟩ := exists_lookup entries
    obtain ⟨-, path, found⟩ := peopled_iff.mp peopled component next there
    exact ⟨component :: path, by rwa [subscribers_cons, orDefault_there there]⟩
  · exact ⟨[], here⟩

theorem peopled_insert (path : List Text) (tx : M) : Peopled (m.insert path tx) := by
  induction path generalizing m with
  | nil =>
    have children := peopled_iff.mp peopled
    exact peopled_iff.mpr children
  | cons component path ih =>
    refine peopled_iff.mpr (allValues_put (peopled_iff.mp peopled) ?_ component)
    refine ⟨ih (peopled_child peopled component), path, ?_⟩
    rw [insert_subscribers]
    simp

theorem peopled_replaceChild (here : List M) {y : SubscriberMap M} (new : Peopled y) :
    Peopled ⟨here, SubscriberMap.replaceChild component y m.children⟩ :=
  peopled_iff.mpr (allValues_replace (peopled_iff.mp peopled)
    (fun filled => ⟨new, exists_subscriber new filled⟩) component)

theorem peopled_retain (path : List Text) : Peopled (m.retain send state path).map := by
  have root (m : SubscriberMap M) (peopled : Peopled m) (state : σ) :
      Peopled (m.retain send state []).map := by
    have children := peopled_iff.mp peopled
    exact peopled_iff.mpr children
  induction path generalizing m state with
  | nil => exact root m peopled state
  | cons component path ih =>
    cases there : m.children.lookup component with
    | none =>
      rw [retain_absent there]
      exact root m peopled state
    | some next =>
      have below : Peopled next := (peopled_iff.mp peopled component next there).1
      by_cases passed : m.subscribed = []
      · rw [retain_passed there passed]
        exact peopled_replaceChild peopled [] (ih below)
      · rw [retain_called there passed]
        exact peopled_replaceChild peopled _ below

/-- The map contains a path exactly if somebody subscribed to a prefix or to an extension. -/
theorem contains_iff (path : List Text) : m.contains path = true ↔
    ∃ q, m.subscribers q ≠ [] ∧ (q <+: path ∨ path <+: q) := by
  induction path generalizing m with
  | nil =>
    have emptiness : m.contains [] = !m.isEmpty := by
      by_cases here : m.subscribed = [] <;>
        simp [SubscriberMap.contains, SubscriberMap.isEmpty, here]
    rw [emptiness, Bool.not_eq_true']
    constructor
    · intro filled
      obtain ⟨q, somebody⟩ := exists_subscriber peopled filled
      exact ⟨q, somebody, .inr List.nil_prefix⟩
    · rintro ⟨q, somebody, -⟩
      by_contra empty
      rw [isEmpty_default m (by simpa using empty), subscribers_default] at somebody
      exact somebody rfl
  | cons component path ih =>
    by_cases here : m.subscribed = []
    · have below : m.contains (component :: path) =
          (orDefault m.children component).contains path := by
        cases there : m.children.lookup component with
        | none =>
          rw [orDefault_absent there, SubscriberMap.contains]
          cases path <;> simp [here, there, SubscriberMap.contains, default, SubscriberMap.isEmpty]
        | some next =>
          rw [orDefault_there there, SubscriberMap.contains]
          simp [here, there]
      rw [below, ih (peopled_child peopled component)]
      constructor
      · rintro ⟨q, somebody, comparable⟩
        refine ⟨component :: q, ?_, ?_⟩
        · rwa [subscribers_cons]
        · simpa [List.cons_prefix_cons] using comparable
      · rintro ⟨q, somebody, comparable⟩
        cases q with
        | nil => exact absurd here somebody
        | cons first q =>
          have same : first = component := by
            rcases comparable with shorter | longer
            · exact (List.cons_prefix_cons.mp shorter).1
            · exact (List.cons_prefix_cons.mp longer).1.symm
          subst same
          rw [subscribers_cons] at somebody
          exact ⟨q, somebody, by simpa [List.cons_prefix_cons] using comparable⟩
    · constructor
      · intro _
        exact ⟨[], here, .inl List.nil_prefix⟩
      · intro _
        simp [SubscriberMap.contains, here]

end

end Peopled

section Handlers

open HandlerMaps

/-- The root has an entry of this name exactly if something is registered behind it. -/
theorem handlers_contains_iff {m : HandlerMap H} (pruned : Pruned m) (name : Text) :
    m.contains name = true ↔ ∃ path, (m.registered (name :: path)).isSome := by
  cases m with
  | leaf t => simp [HandlerMap.contains]
  | branch children =>
    cases there : children.lookup name with
    | none => simp [HandlerMap.contains, there, registered_cons, orDefault_absent there]
    | some next =>
      obtain ⟨filled, below⟩ := pruned_branch_iff.mp pruned name next there
      obtain ⟨path, found⟩ := exists_registered next filled below
      have contained : (HandlerMap.branch children).contains name = true := by
        simp [HandlerMap.contains, there]
      simp only [contained, true_iff]
      exact ⟨path, by rwa [registered_cons, orDefault_there there]⟩

/-- The first part of a split uri is a name of a scheme, which is no uri itself. -/
theorem splitUri_scheme {uri name : Text} {path : List Text}
    (split : splitUri uri = some (name :: path)) : splitUri name = none := by
  have scheme : name = "hm".toList ∨ name = "spotify".toList ∨ name = [] := by
    rw [splitUri] at split
    split at split
    · exact .inl (List.cons.inj (Option.some.inj split)).1.symm
    · split at split
      · exact .inr (.inl (List.cons.inj (Option.some.inj split)).1.symm)
      · split at split
        · exact .inr (.inr (List.cons.inj (Option.some.inj split)).1.symm)
        · simp at split
  rcases scheme with rfl | rfl | rfl <;> decide

end Handlers

variable {r : Registry H M}

section Calls

inductive Call (H M σ : Type) where
  | addHandler (uri : Text) (handler : H)
  | removeHandler (uri : Text)
  | subscribe (uris : List Text) (tx : M)
  | message (send : σ → M → Bool × σ) (state : σ) (uri : Text)

def step (r : Registry H M) : Call H M σ → Registry H M
  | .addHandler uri handler =>
    { r with requestHandlers := (addHandler r.requestHandlers uri handler).2 }
  | .removeHandler uri => { r with requestHandlers := (removeHandler r.requestHandlers uri).2 }
  | .subscribe uris tx => { r with messageHandlers := (subscribe r.messageHandlers tx uris).2 }
  | .message send state uri => (r.dispatchMessage send state uri).2

/-- Both tries are pruned, and handlers are registered by uris. -/
structure Sound (r : Registry H M) : Prop where
  pruned : HandlerMaps.Pruned r.requestHandlers
  split : ∀ path, (r.requestHandlers.registered path).isSome → ∃ uri, splitUri uri = some path
  peopled : Peopled r.messageHandlers

theorem sound_new : Sound (Registry.new : Registry H M) where
  pruned := HandlerMaps.pruned_default
  split path found := by simp [Registry.new] at found
  peopled := peopled_default

theorem sound_addHandler (sound : Sound r) (uri : Text) (handler : H) :
    Sound { r with requestHandlers := (addHandler r.requestHandlers uri handler).2 } := by
  cases parts : splitUri uri with
  | none =>
    simp only [addHandler, parts]
    exact sound
  | some path =>
    simp only [addHandler, parts]
    refine ⟨HandlerMaps.insert_pruned sound.pruned path handler, ?_, sound.peopled⟩
    intro other found
    by_cases done : (r.requestHandlers.insert path handler).1 = .ok ()
    · simp only [HandlerMaps.insert_registered _ path handler done] at found
      by_cases same : other = path
      · exact ⟨uri, same ▸ parts⟩
      · exact sound.split other (by simpa [same] using found)
    · simp only [HandlerMaps.insert_error _ path handler done] at found
      exact sound.split other found

theorem sound_removeHandler (sound : Sound r) (uri : Text) :
    Sound { r with requestHandlers := (removeHandler r.requestHandlers uri).2 } := by
  cases parts : splitUri uri with
  | none =>
    simp only [removeHandler, parts]
    exact sound
  | some query =>
    simp only [removeHandler, parts]
    refine ⟨HandlerMaps.remove_pruned sound.pruned query, ?_, sound.peopled⟩
    intro path found
    simp only [HandlerMaps.remove_registered] at found
    split at found
    · simp at found
    · exact sound.split path found

theorem peopled_subscribe {m : SubscriberMap M} (peopled : Peopled m) (tx : M)
    (uris : List Text) : Peopled (subscribe m tx uris).2 := by
  induction uris generalizing m with
  | nil => exact peopled
  | cons uri uris ih =>
    cases parts : splitUri uri with
    | none => simpa [subscribe, parts] using peopled
    | some path => simpa [subscribe, parts] using ih (peopled_insert peopled path tx)

theorem sound_message (sound : Sound r) (send : σ → M → Bool × σ) (state : σ) (uri : Text) :
    Sound (r.dispatchMessage send state uri).2 := by
  cases parts : splitUri uri with
  | none => simpa [Registry.dispatchMessage, parts] using sound
  | some path =>
    simp only [Registry.dispatchMessage, parts]
    exact ⟨sound.pruned, sound.split, peopled_retain sound.peopled path⟩

theorem step_sound (r : Registry H M) (call : Call H M σ) (sound : Sound r) :
    Sound (step r call) := by
  cases call with
  | addHandler uri handler => exact sound_addHandler sound uri handler
  | removeHandler uri => exact sound_removeHandler sound uri
  | subscribe uris tx =>
    exact ⟨sound.pruned, sound.split, peopled_subscribe sound.peopled tx uris⟩
  | message send state uri => exact sound_message sound send state uri

end Calls

section Handles

/-- `handles` answers as the two dispatchers would find. -/
def Truthful (r : Registry H M) (send : σ → M → Bool × σ) (state : σ) (uri : Text) : Prop :=
  handles r.requestHandlers r.messageHandlers uri = true ↔
    (r.requestHandler uri).isSome ∨ (r.dispatchMessage send state uri).1 = true

/-- The cases in which `handles` does not go wrong: the uri is not the name of a scheme that has
request handlers, and where nobody subscribed to a prefix of it, it has a request handler
exactly if somebody subscribed further down. -/
def Answerable (r : Registry H M) (uri : Text) : Prop :=
  (∀ path, r.requestHandlers.registered (uri :: path) = none) ∧
    ∀ split, splitUri uri = some split →
      (∃ q, q <+: split ∧ r.messageHandlers.subscribers q ≠ []) ∨
        ((∃ p, p <+: split ∧ (r.requestHandlers.registered p).isSome) ↔
          ∃ q, split <+: q ∧ r.messageHandlers.subscribers q ≠ [])

theorem get_isSome_iff (m : HandlerMap H) (query : List Text) :
    (m.get query).isSome ↔ ∃ p, p <+: query ∧ (m.registered p).isSome := by
  simp only [Option.isSome_iff_exists, HandlerMaps.get_eq_some_iff]
  constructor
  · rintro ⟨handler, p, begins, found⟩
    exact ⟨p, begins, handler, found⟩
  · rintro ⟨p, begins, handler, found⟩
    exact ⟨handler, p, begins, found⟩

theorem truthful_iff_of_sound (sound : Sound r) (send : σ → M → Bool × σ) (state : σ) (uri : Text) :
    Truthful r send state uri ↔ Answerable r uri := by
  by_cases named : r.requestHandlers.contains uri = true
  · -- nothing can be dispatched to the name of a scheme
    obtain ⟨path, found⟩ := (handlers_contains_iff sound.pruned uri).mp named
    obtain ⟨other, split⟩ := sound.split _ found
    have parts := splitUri_scheme split
    constructor
    · intro truthful
      simp [Truthful, handles, named, Registry.requestHandler, Registry.dispatchMessage,
        parts] at truthful
    · rintro ⟨unnamed, -⟩
      simp [unnamed path] at found
  · have unnamed (path : List Text) : r.requestHandlers.registered (uri :: path) = none := by
      by_contra found
      exact named ((handlers_contains_iff sound.pruned uri).mpr
        ⟨path, Option.isSome_iff_ne_none.mpr found⟩)
    cases parts : splitUri uri with
    | none =>
      simp [Truthful, Answerable, handles, named, Registry.requestHandler,
        Registry.dispatchMessage, parts, unnamed]
    | some split =>
      have answered : handles r.requestHandlers r.messageHandlers uri = true ↔
          (∃ q, q <+: split ∧ r.messageHandlers.subscribers q ≠ []) ∨
            ∃ q, split <+: q ∧ r.messageHandlers.subscribers q ≠ [] := by
        have lookedUp : handles r.requestHandlers r.messageHandlers uri =
            r.messageHandlers.contains split := by simp [handles, named, parts]
        rw [lookedUp, contains_iff sound.peopled, ← exists_or]
        refine exists_congr fun q => ?_
        rw [and_comm, or_and_right]
      have request : (r.requestHandler uri).isSome ↔
          ∃ p, p <+: split ∧ (r.requestHandlers.registered p).isSome := by
        simp only [Registry.requestHandler, parts, get_isSome_iff]
      have message : (r.dispatchMessage send state uri).1 = true ↔
          ∃ q, q <+: split ∧ r.messageHandlers.subscribers q ≠ [] := by
        simp only [Registry.dispatchMessage, parts, SubscriberMaps.retain_handled_iff]
      rw [Truthful, answered, request, message, Answerable]
      simp only [unnamed, implies_true, true_and, parts, Option.some.injEq, forall_eq']
      by_cases reached : ∃ q, q <+: split ∧ r.messageHandlers.subscribers q ≠ []
      · simp only [reached, true_or, or_true]
      · simp only [reached, false_or, or_false]
        exact ⟨Iff.symm, Iff.symm⟩

/-- After any registrations and messages, `handles` tells the truth about a uri in these cases
and in no others. -/
theorem truthful_iff (calls : List (Call H M σ)) (send : σ → M → Bool × σ) (state : σ)
    (uri : Text) : Truthful (run step Registry.new calls) send state uri ↔
      Answerable (run step Registry.new calls) uri :=
  truthful_iff_of_sound (run_invariant' step_sound calls sound_new) send state uri

theorem run_contains_iff (calls : List (Call H M σ)) (path : List Text) :
    let m := (run step Registry.new calls).messageHandlers
    m.contains path = true ↔ ∃ q, m.subscribers q ≠ [] ∧ (q <+: path ∨ path <+: q) :=
  contains_iff (run_invariant' step_sound calls sound_new).peopled path

/-- A uri with a request handler and no subscriber is not reported. -/
theorem requestHandler_notTruthful :
    ¬ Truthful (run step Registry.new [(.addHandler "hm://a/b".toList 1 : Call Nat Nat Unit)])
      (fun _ _ => (true, ())) () "hm://a/b".toList := by
  rw [Truthful]
  decide

end Handles

end DealerRegistry
