import SqueezeboxConnect.DealerRequests
import SqueezeboxConnect.Tables
import Mathlib.Data.List.Infix
import Mathlib.Data.List.Perm.Basic

/-!
# The map of message subscribers

Subscribers are kept in a trie over the parts of a uri, any number of them at
every node. A message goes down the path of its uri and calls a closure on the
subscribers it meets; those for which the closure answers `false` are removed.

The closure keeps a state of its own, so two calls of it need not agree. Each
call is recorded with the path its subscriber is registered at.
-/

namespace DealerRequests

open Words

variable {T σ : Type}

structure SubscriberMap (T : Type) where
  subscribed : List T
  children : List (Text × SubscriberMap T)

/-- A call of the closure: where the subscriber is registered, and the answer. -/
structure Called (T : Type) where
  path : List Text
  subscriber : T
  answer : Bool

/-- What a call of `retain` returns and leaves behind. -/
structure Retained (σ T : Type) where
  handledByAny : Bool
  map : SubscriberMap T
  state : σ
  calls : List (Called T)

namespace SubscriberMap

open Tables

instance : Inhabited (SubscriberMap T) := ⟨⟨[], []⟩⟩

def insert (m : SubscriberMap T) (path : List Text) (handler : T) : SubscriberMap T :=
  match path with
  | component :: path =>
    let child := orDefault m.children component
    { m with children := put component (child.insert path handler) m.children }
  | [] => { m with subscribed := m.subscribed ++ [handler] }

def isEmpty (m : SubscriberMap T) : Bool := m.children.isEmpty && m.subscribed.isEmpty

def contains (m : SubscriberMap T) (path : List Text) : Bool :=
  if !m.subscribed.isEmpty then true
  else match path with
    | next :: path =>
      match m.children.lookup next with
      | some nextMap => nextMap.contains path
      | none => false
    | [] => !m.isEmpty

/-- The closure of `Vec::retain` is called once for each element, in order. -/
def visit (f : σ → T → Bool × σ) : σ → List T → List (T × Bool) × σ
  | state, [] => ([], state)
  | state, x :: xs =>
    let called := f state x
    let rest := visit f called.2 xs
    ((x, called.1) :: rest.1, rest.2)

def kept (calls : List (T × Bool)) : List T := (calls.filter (·.2)).map (·.1)

/-- The children after the turn of one of them, which goes when it is left empty. -/
def replaceChild (next : Text) (y : SubscriberMap T) (children : List (Text × SubscriberMap T)) :
    List (Text × SubscriberMap T) :=
  replace isEmpty next y children

def retain (f : σ → T → Bool × σ) (state : σ) (m : SubscriberMap T) (path : List Text) :
    Retained σ T :=
  let visited := visit f state m.subscribed
  let handledByAny := !visited.1.isEmpty
  let calls := visited.1.map fun call => ⟨[], call.1, call.2⟩
  let m := { m with subscribed := kept visited.1 }
  match path with
  | [] => ⟨handledByAny, m, visited.2, calls⟩
  | next :: path =>
    match m.children.lookup next with
    | none => ⟨handledByAny, m, visited.2, calls⟩
    | some y =>
      -- `handled_by_any || ..` leaves `y` alone when a subscriber was called here
      let below := if handledByAny then ⟨false, y, visited.2, []⟩ else y.retain f visited.2 path
      ⟨handledByAny || below.handledByAny,
        { m with children := replaceChild next below.map m.children }, below.state,
        calls ++ below.calls.map fun call => { call with path := next :: call.path }⟩

/-- The subscribers at exactly this path. -/
def subscribers (m : SubscriberMap T) (path : List Text) : List T :=
  match path with
  | [] => m.subscribed
  | component :: path =>
    match m.children.lookup component with
    | none => []
    | some next => next.subscribers path

end SubscriberMap

end DealerRequests

namespace SubscriberMaps

open DealerRequests Runs Tables Words

variable {T σ : Type} {f : σ → T → Bool × σ} {state : σ} {m next : SubscriberMap T}
  {component : Text}

section Reading

@[simp] theorem subscribers_nil (m : SubscriberMap T) : m.subscribers [] = m.subscribed := rfl

theorem isEmpty_default (m : SubscriberMap T) (empty : m.isEmpty) : m = default := by
  obtain ⟨subscribed, children⟩ := m
  simp only [SubscriberMap.isEmpty, Bool.and_eq_true, List.isEmpty_iff] at empty
  obtain ⟨rfl, rfl⟩ := empty
  rfl

@[simp] theorem subscribers_default (path : List Text) :
    (default : SubscriberMap T).subscribers path = [] := by
  cases path <;> rfl

theorem subscribers_cons (m : SubscriberMap T) (component : Text) (path : List Text) :
    m.subscribers (component :: path) = (orDefault m.children component).subscribers path := by
  cases there : m.children.lookup component with
  | none => rw [orDefault_absent there, subscribers_default, SubscriberMap.subscribers, there]
  | some next => rw [orDefault_there there, SubscriberMap.subscribers, there]

end Reading

section Building

theorem insert_subscribers (m : SubscriberMap T) (path : List Text) (handler : T)
    (other : List Text) : (m.insert path handler).subscribers other =
      if other = path then m.subscribers other ++ [handler] else m.subscribers other := by
  induction path generalizing m other with
  | nil =>
    cases other with
    | nil => rfl
    | cons first other => rfl
  | cons component path ih =>
    cases other with
    | nil => rfl
    | cons first other =>
      rw [subscribers_cons, subscribers_cons, SubscriberMap.insert, orDefault_put]
      by_cases same : first = component
      · subst same
        rw [if_pos rfl, ih]
        simp
      · simp [same]

/-- The map after subscriptions in this order. -/
def subscribed (subscriptions : List (List Text × T)) : SubscriberMap T :=
  run (fun m subscription => m.insert subscription.1 subscription.2) default subscriptions

theorem subscribed_subscribers (subscriptions : List (List Text × T)) (path : List Text) :
    (subscribed subscriptions).subscribers path =
      (subscriptions.filter fun subscription => subscription.1 = path).map (·.2) := by
  induction subscriptions using List.reverseRecOn with
  | nil => exact subscribers_default path
  | append_singleton subscriptions last ih =>
    rw [subscribed, run_append, run_cons, run_nil, insert_subscribers, ← subscribed, ih]
    by_cases same : path = last.1
    · simp [same]
    · simp [same, Ne.symm same]

end Building

section Retaining

theorem visit_fst (f : σ → T → Bool × σ) (state : σ) (xs : List T) :
    (SubscriberMap.visit f state xs).1.map (·.1) = xs := by
  induction xs generalizing state with
  | nil => rfl
  | cons x xs ih => simp [SubscriberMap.visit, ih]

theorem visit_eq_nil_iff (f : σ → T → Bool × σ) (state : σ) (xs : List T) :
    (SubscriberMap.visit f state xs).1 = [] ↔ xs = [] := by
  cases xs <;> simp [SubscriberMap.visit]

/-- The message stops at the first node on its path that has subscribers: all of them are
called, those that answered `false` are removed, and nothing else changes. -/
structure StopsAt (f : σ → T → Bool × σ) (state : σ) (m : SubscriberMap T) (path : List Text)
    (r : Retained σ T) (stop : List Text) : Prop where
  on_path : stop <+: path
  first : ∀ p, p <+: stop → p ≠ stop → m.subscribers p = []
  last : stop ≠ path → m.subscribers stop ≠ []
  calls : r.calls = (SubscriberMap.visit f state (m.subscribers stop)).1.map
    fun call => ⟨stop, call.1, call.2⟩
  map : ∀ p, r.map.subscribers p =
    if p = stop then SubscriberMap.kept (SubscriberMap.visit f state (m.subscribers stop)).1
    else m.subscribers p
  handled : r.handledByAny = !r.calls.isEmpty

theorem replaceChild_subscribers (m : SubscriberMap T) (here : List T) (component : Text)
    (y : SubscriberMap T) (first : Text) (path : List Text) :
    (SubscriberMap.mk here (SubscriberMap.replaceChild component y m.children)).subscribers
        (first :: path) =
      if first = component then y.subscribers path else m.subscribers (first :: path) := by
  rw [subscribers_cons, subscribers_cons, SubscriberMap.replaceChild,
    orDefault_replace isEmpty_default]
  split
  · rfl
  · rfl

theorem retain_absent (absent : m.children.lookup component = none) (path : List Text) :
    m.retain f state (component :: path) = m.retain f state [] := by
  simp only [SubscriberMap.retain, absent]

theorem retain_called (there : m.children.lookup component = some next)
    (called : m.subscribed ≠ []) (path : List Text) :
    m.retain f state (component :: path) =
      { m.retain f state [] with
        map := ⟨(m.retain f state []).map.subscribed,
          SubscriberMap.replaceChild component next m.children⟩ } := by
  simp [SubscriberMap.retain, there, visit_eq_nil_iff, called]

theorem retain_passed (there : m.children.lookup component = some next)
    (passed : m.subscribed = []) (path : List Text) :
    m.retain f state (component :: path) =
      { next.retain f state path with
        map := ⟨[], SubscriberMap.replaceChild component (next.retain f state path).map m.children⟩
        calls := (next.retain f state path).calls.map
          fun call => { call with path := component :: call.path } } := by
  simp [SubscriberMap.retain, there, passed, SubscriberMap.visit, SubscriberMap.kept]

theorem stopsAt_root {path : List Text} {r : Retained σ T} (last : path ≠ [] → m.subscribed ≠ [])
    (handled : r.handledByAny = (m.retain f state []).handledByAny)
    (calls : r.calls = (m.retain f state []).calls)
    (here : r.map.subscribed = (m.retain f state []).map.subscribed)
    (below : ∀ component p, r.map.subscribers (component :: p) = m.subscribers (component :: p)) :
    StopsAt f state m path r [] where
  on_path := List.nil_prefix
  first p before other := absurd (List.prefix_nil.mp before) other
  last other := last (Ne.symm other)
  calls := calls
  map p := by
    cases p with
    | nil => exact here
    | cons component p => simpa using below component p
  handled := by
    rw [handled, calls]
    simp [SubscriberMap.retain]

/-- A path that leaves the map passes no subscriber. -/
theorem stopsAt_absent (absent : m.children.lookup component = none) (passed : m.subscribed = [])
    (path : List Text) :
    StopsAt f state m (component :: path) (m.retain f state []) (component :: path) := by
  have nobody (p : List Text) : m.subscribers (component :: p) = [] := by
    rw [subscribers_cons, orDefault_absent absent, subscribers_default]
  refine ⟨List.prefix_rfl, ?_, fun other => absurd rfl other, ?_, ?_, ?_⟩
  · intro p before _
    cases p with
    | nil => exact passed
    | cons first p =>
      obtain ⟨rfl, -⟩ := List.cons_prefix_cons.mp before
      exact nobody p
  · simp [SubscriberMap.retain, passed, nobody, SubscriberMap.visit]
  · intro p
    have same : (m.retain f state []).map = ⟨[], m.children⟩ := by
      simp [SubscriberMap.retain, passed, SubscriberMap.visit, SubscriberMap.kept]
    have unchanged : (m.retain f state []).map.subscribers p = m.subscribers p := by
      rw [same]
      cases p with
      | nil => exact passed.symm
      | cons first p => rfl
    rw [unchanged, nobody]
    split
    · next at_stop => rw [at_stop, nobody]; rfl
    · rfl
  · simp [SubscriberMap.retain]

/-- Below a node without subscribers the message goes on in the child. -/
theorem stopsAt_below {path stop : List Text} (there : m.children.lookup component = some next)
    (passed : m.subscribed = [])
    (stops : StopsAt f state next path (next.retain f state path) stop) :
    StopsAt f state m (component :: path) (m.retain f state (component :: path))
      (component :: stop) := by
  have below (p : List Text) : m.subscribers (component :: p) = next.subscribers p := by
    rw [subscribers_cons, orDefault_there there]
  rw [retain_passed there passed]
  refine ⟨List.cons_prefix_cons.mpr ⟨rfl, stops.on_path⟩, ?_, ?_, ?_, ?_, ?_⟩
  · intro p before other
    cases p with
    | nil => exact passed
    | cons first p =>
      obtain ⟨rfl, rest⟩ := List.cons_prefix_cons.mp before
      rw [below]
      exact stops.first p rest fun same => other (by rw [same])
  · intro other
    rw [below]
    exact stops.last fun same => other (by rw [same])
  · simp [stops.calls, below, Function.comp_def]
  · intro p
    cases p with
    | nil => simpa using passed.symm
    | cons first p =>
      rw [replaceChild_subscribers, below]
      by_cases same : first = component
      · subst same
        simp [stops.map, below]
      · simp [same]
  · simp [stops.handled]

theorem retain_stopsAt (f : σ → T → Bool × σ) (state : σ) (m : SubscriberMap T)
    (path : List Text) : ∃ stop, StopsAt f state m path (m.retain f state path) stop := by
  induction path generalizing state m with
  | nil =>
    exact ⟨[], stopsAt_root (fun other => absurd rfl other) rfl rfl rfl fun _ _ => rfl⟩
  | cons component path ih =>
    cases there : m.children.lookup component with
    | none =>
      rw [retain_absent there]
      by_cases passed : m.subscribed = []
      · exact ⟨_, stopsAt_absent there passed path⟩
      · exact ⟨[], stopsAt_root (fun _ => passed) rfl rfl rfl fun _ _ => rfl⟩
    | some next =>
      by_cases passed : m.subscribed = []
      · obtain ⟨stop, stops⟩ := ih state next
        exact ⟨component :: stop, stopsAt_below there passed stops⟩
      · rw [retain_called there passed]
        refine ⟨[], stopsAt_root (fun _ => passed) rfl rfl rfl ?_⟩
        intro first p
        rw [replaceChild_subscribers]
        split
        · next same => rw [same, subscribers_cons, orDefault_there there]
        · rfl

/-- A call tells that somebody on the path has subscribed. -/
theorem retain_handled_iff (f : σ → T → Bool × σ) (state : σ) (m : SubscriberMap T)
    (path : List Text) :
    (m.retain f state path).handledByAny = true ↔ ∃ p, p <+: path ∧ m.subscribers p ≠ [] := by
  obtain ⟨stop, stops⟩ := retain_stopsAt f state m path
  have called : (m.retain f state path).calls ≠ [] ↔ m.subscribers stop ≠ [] := by
    rw [stops.calls, Ne, List.map_eq_nil_iff, visit_eq_nil_iff]
  rw [stops.handled, Bool.not_eq_true', List.isEmpty_eq_false_iff, called]
  constructor
  · intro somebody
    exact ⟨stop, stops.on_path, somebody⟩
  · rintro ⟨p, on_path, somebody⟩
    by_cases ended : stop = path
    · by_cases same : p = stop
      · exact same ▸ somebody
      · exact absurd (stops.first p (ended ▸ on_path) same) somebody
    · exact stops.last ended

end Retaining

section Delivery

/-- The message came to everybody who subscribed to a prefix of its path, once and to nobody
else; those who answered `false` are gone, all others stay; and the result tells whether there
was anybody. -/
structure Delivered (subscriptions : List (List Text × T)) (path : List Text)
    (r : Retained σ T) : Prop where
  called : (r.calls.map fun call => (call.path, call.subscriber)).Perm
    (subscriptions.filter fun subscription => subscription.1 <+: path)
  removed : ∀ p, r.map.subscribers p =
    if p <+: path then
      (r.calls.filter fun call => call.path = p && call.answer).map (·.subscriber)
    else (subscriptions.filter fun subscription => subscription.1 = p).map (·.2)
  returned : r.handledByAny = true ↔ r.calls ≠ []

variable {subscriptions : List (List Text × T)} {path stop : List Text}

theorem subscribed_ne_nil_iff (subscriptions : List (List Text × T)) (path : List Text) :
    (subscribed subscriptions).subscribers path ≠ [] ↔ ∃ s ∈ subscriptions, s.1 = path := by
  rw [subscribed_subscribers]
  simp

section

variable {r : Retained σ T} (stops : StopsAt f state (subscribed subscriptions) path r stop)
include stops

/-- If all who match subscribed to one path, that is where the message stops. -/
theorem stop_of_match
    (one : ∀ s ∈ subscriptions, ∀ t ∈ subscriptions, s.1 <+: path → t.1 <+: path → s.1 = t.1)
    {s : List Text × T} (inside : s ∈ subscriptions) (on_path : s.1 <+: path) : s.1 = stop := by
  by_contra other
  have somebody := (subscribed_ne_nil_iff subscriptions s.1).mpr ⟨s, inside, rfl⟩
  by_cases ended : stop = path
  · exact somebody (stops.first s.1 (ended ▸ on_path) other)
  · obtain ⟨t, member, at_stop⟩ := (subscribed_ne_nil_iff subscriptions stop).mp (stops.last ended)
    exact other ((one s inside t member on_path (at_stop ▸ stops.on_path)).trans at_stop)

theorem calls_eq :
    (r.calls.map fun call => (call.path, call.subscriber)) =
      subscriptions.filter fun subscription => subscription.1 = stop := by
  have subscribers : (r.calls.map fun call => (call.path, call.subscriber)) =
      ((subscribed subscriptions).subscribers stop).map (Prod.mk stop) := by
    have visited := visit_fst f state ((subscribed subscriptions).subscribers stop)
    rw [stops.calls, List.map_map]
    nth_rewrite 2 [← visited]
    rw [List.map_map]
    rfl
  rw [subscribers, subscribed_subscribers, List.map_map]
  calc (subscriptions.filter fun subscription => subscription.1 = stop).map
        (Prod.mk stop ∘ fun subscription => subscription.2)
      = (subscriptions.filter fun subscription => subscription.1 = stop).map id := by
        refine List.map_congr_left fun subscription inside => ?_
        have at_stop : subscription.1 = stop := by simpa using (List.mem_filter.mp inside).2
        simp [← at_stop]
    _ = _ := List.map_id _

theorem kept_eq (p : List Text) :
    (r.calls.filter fun call => call.path = p && call.answer).map (·.subscriber) =
      if p = stop then r.map.subscribers p else [] := by
  rw [stops.calls, stops.map, List.filter_map, List.map_map]
  by_cases same : p = stop
  · simp [same, SubscriberMap.kept, Function.comp_def]
  · simp [same, Ne.symm same, Function.comp_def]

end

/-- A message comes to all who match exactly if they have all subscribed to the same path: the
first subscribers on the path hide those further down. -/
theorem delivered_iff (f : σ → T → Bool × σ) (state : σ) (subscriptions : List (List Text × T))
    (path : List Text) :
    Delivered subscriptions path ((subscribed subscriptions).retain f state path) ↔
      ∀ s ∈ subscriptions, ∀ t ∈ subscriptions, s.1 <+: path → t.1 <+: path → s.1 = t.1 := by
  obtain ⟨stop, stops⟩ := retain_stopsAt f state (subscribed subscriptions) path
  constructor
  · intro delivered
    have at_stop {s : List Text × T} (inside : s ∈ subscriptions) (on_path : s.1 <+: path) :
        s.1 = stop := by
      have called := delivered.called.mem_iff.mpr
        (List.mem_filter.mpr ⟨inside, decide_eq_true on_path⟩)
      rw [calls_eq stops] at called
      simpa using (List.mem_filter.mp called).2
    intro s inside t member s_matches t_matches
    rw [at_stop inside s_matches, at_stop member t_matches]
  · intro one
    have matching (s : List Text × T) (inside : s ∈ subscriptions) :
        s.1 = stop ↔ s.1 <+: path := by
      constructor
      · exact fun at_stop => at_stop ▸ stops.on_path
      · exact stop_of_match stops one inside
    refine ⟨?_, ?_, ?_⟩
    · rw [calls_eq stops]
      refine List.Perm.of_eq (List.filter_congr fun s inside => ?_)
      simp [matching s inside]
    · intro p
      rw [kept_eq stops, stops.map]
      by_cases same : p = stop
      · simp [same, stops.on_path]
      · have elsewhere : p <+: path → (subscribed subscriptions).subscribers p = [] := by
          intro on_path
          by_contra somebody
          obtain ⟨s, inside, rfl⟩ := (subscribed_ne_nil_iff subscriptions p).mp somebody
          exact same ((matching s inside).mpr on_path)
        rw [if_neg same, if_neg same, ← subscribed_subscribers]
        split
        · next on_path => exact elsewhere on_path
        · rfl
    · rw [stops.handled]
      simp

/-- Somebody at `hm://a` hides somebody at `hm://a/b`. -/
theorem hidden_notDelivered :
    let a : List Text := ["hm".toList, "a".toList]
    let ab : List Text := ["hm".toList, "a".toList, "b".toList]
    ¬ Delivered [(a, 1), (ab, 2)] ab
      ((subscribed [(a, 1), (ab, 2)]).retain (fun _ _ => (true, ())) () ab) := by
  intro a ab delivered
  have same := delivered.called.length_eq
  revert same
  decide

end Delivery

end SubscriberMaps
