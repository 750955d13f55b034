import SqueezeboxConnect.DealerRequests
import SqueezeboxConnect.Tables

/-!
# The map of request handlers

Request handlers are kept in a trie over the parts of their uri. A handler sits
at a leaf, and the first leaf on the way of a path answers for it. Inserting
creates the branches on its way before it is known whether it succeeds, and
removing prunes the branches it leaves empty.

`registered` reads the exact path of a handler off the trie. It is what the map
stands for: a map from paths to handlers in which no path begins another one.
-/

namespace DealerRequests

open Words

variable {T : Type}

inductive HandlerMapError where
  | alreadyHandled
  deriving DecidableEq, Repr

namespace HandlerMap

open Tables

instance : Inhabited (HandlerMap T) := ⟨.branch []⟩

def contains : HandlerMap T → Text → Bool
  | .leaf _, _ => false
  | .branch map, path => (map.lookup path).isSome

/-- The result, and the map the call leaves behind. -/
def insert : HandlerMap T → List Text → T → Except HandlerMapError Unit × HandlerMap T
  | .leaf t, _, _ => (.error .alreadyHandled, .leaf t)
  | .branch children, component :: path, handler =>
    let inserted := (orDefault children component).insert path handler
    (inserted.1, .branch (put component inserted.2 children))
  | .branch [], [], handler => (.ok (), .leaf handler)
  | .branch children, [], _ => (.error .alreadyHandled, .branch children)

def isEmptyBranch : HandlerMap T → Bool
  | .leaf _ => false
  | .branch b => b.isEmpty

def remove : HandlerMap T → List Text → Option T × HandlerMap T
  | .leaf t, _ => (some t, default)
  | .branch map, [] => (none, .branch map)
  | .branch map, component :: path =>
    match map.lookup component with
    | none => (none, .branch map)
    | some next =>
      let removed := next.remove path
      -- the branch that lost its last entry goes with it
      (removed.1, .branch (replace isEmptyBranch component removed.2 map))

/-- The part of the trie below a path. -/
def node? : HandlerMap T → List Text → Option (HandlerMap T)
  | m, [] => some m
  | .leaf _, _ :: _ => none
  | .branch children, component :: path =>
    match children.lookup component with
    | none => none
    | some next => next.node? path

/-- The handler at exactly this path. -/
def registered : HandlerMap T → List Text → Option T
  | .leaf t, [] => some t
  | .leaf _, _ :: _ => none
  | .branch _, [] => none
  | .branch children, component :: path =>
    match children.lookup component with
    | none => none
    | some next => next.registered path

end HandlerMap

end DealerRequests

namespace HandlerMaps

open DealerRequests Runs Tables Words

variable {T : Type} {m next : HandlerMap T} {children : List (Text × HandlerMap T)}
  {component : Text} {path : List Text} {handler : T}

section Reading

theorem get_cons (children : List (Text × HandlerMap T)) (component : Text) (path : List Text) :
    (HandlerMap.branch children).get (component :: path) =
      (orDefault children component).get path := by
  cases there : children.lookup component with
  | none =>
    rw [orDefault_absent there, HandlerMap.get, there]
    cases path <;> rfl
  | some next => rw [orDefault_there there, HandlerMap.get, there]

@[simp] theorem registered_leaf (t : T) : (HandlerMap.leaf t).registered path =
    if path = [] then some t else none := by
  cases path <;> rfl

@[simp] theorem registered_branch_nil : (HandlerMap.branch children).registered [] = none := rfl

@[simp] theorem registered_default (path : List Text) :
    (default : HandlerMap T).registered path = none := by
  cases path <;> rfl

theorem registered_cons (children : List (Text × HandlerMap T)) (component : Text)
    (path : List Text) :
    (HandlerMap.branch children).registered (component :: path) =
      (orDefault children component).registered path := by
  cases there : children.lookup component with
  | none => rw [orDefault_absent there, registered_default, HandlerMap.registered, there]
  | some next => rw [orDefault_there there, HandlerMap.registered, there]

/-- The first leaf on the way is the handler whose path begins the query. -/
theorem get_eq_some_iff (m : HandlerMap T) (query : List Text) (handler : T) :
    m.get query = some handler ↔ ∃ path, path <+: query ∧ m.registered path = some handler := by
  induction query generalizing m with
  | nil =>
    cases m with
    | leaf t => simp [HandlerMap.get, List.prefix_nil]
    | branch children => simp [HandlerMap.get, List.prefix_nil]
  | cons component query ih =>
    cases m with
    | leaf t =>
      simp only [HandlerMap.get, registered_leaf]
      constructor
      · intro found
        exact ⟨[], List.nil_prefix, by simpa using found⟩
      · rintro ⟨path, -, at_path⟩
        split at at_path
        · exact at_path
        · simp at at_path
    | branch children =>
      rw [get_cons, ih]
      constructor
      · rintro ⟨path, begins, at_path⟩
        exact ⟨component :: path, List.cons_prefix_cons.mpr ⟨rfl, begins⟩,
          (registered_cons children component path).trans at_path⟩
      · rintro ⟨path, begins, at_path⟩
        cases path with
        | nil => simp at at_path
        | cons first path =>
          obtain ⟨rfl, rest⟩ := List.cons_prefix_cons.mp begins
          exact ⟨path, rest, (registered_cons children first path).symm.trans at_path⟩

/-- No registered path begins another one. -/
theorem registered_prefixFree (m : HandlerMap T) {p q : List Text}
    (first : (m.registered p).isSome) (second : (m.registered q).isSome) (begins : p <+: q) :
    p = q := by
  induction p generalizing m q with
  | nil =>
    cases m with
    | leaf t =>
      cases q with
      | nil => rfl
      | cons component q => simp at second
    | branch children => simp at first
  | cons component p ih =>
    cases q with
    | nil => simp at begins
    | cons other q =>
      obtain ⟨rfl, rest⟩ := List.cons_prefix_cons.mp begins
      cases m with
      | leaf t => simp at first
      | branch children =>
        rw [registered_cons] at first second
        rw [ih _ first second rest]

end Reading

section Pruning

/-- No branch below the root is empty. -/
def Pruned (m : HandlerMap T) : Prop :=
  ∀ path, path ≠ [] → m.node? path ≠ some (.branch [])

theorem pruned_leaf (t : T) : Pruned (HandlerMap.leaf t) := by
  intro path inner
  cases path with
  | nil => exact absurd rfl inner
  | cons component path => simp [HandlerMap.node?]

theorem pruned_branch_iff : Pruned (HandlerMap.branch children) ↔
    AllValues (fun next => next ≠ .branch [] ∧ Pruned next) children := by
  constructor
  · intro pruned component next there
    have below (path : List Text) : next.node? path ≠ some (.branch []) := by
      have := pruned (component :: path) (by simp)
      simpa [HandlerMap.node?, there] using this
    refine ⟨?_, fun path _ => below path⟩
    intro empty
    exact below [] (by rw [empty]; rfl)
  · intro below path inner
    cases path with
    | nil => exact absurd rfl inner
    | cons component path =>
      cases there : children.lookup component with
      | none => simp [HandlerMap.node?, there]
      | some next =>
        obtain ⟨filled, pruned⟩ := below component next there
        have step : (HandlerMap.branch children).node? (component :: path) = next.node? path := by
          simp [HandlerMap.node?, there]
        rw [step]
        cases path with
        | nil => simpa [HandlerMap.node?] using filled
        | cons other path => exact pruned (other :: path) (by simp)

theorem pruned_default : Pruned (default : HandlerMap T) :=
  pruned_branch_iff.mpr fun _ _ there => by simp at there

/-- Every filled and pruned part of the trie has a handler. -/
theorem exists_registered : ∀ m : HandlerMap T, m ≠ .branch [] → Pruned m →
    ∃ path, (m.registered path).isSome
  | .leaf _, _, _ => ⟨[], rfl⟩
  | .branch children, filled, pruned => by
    have entries : children ≠ [] := fun empty => filled (congrArg _ empty)
    obtain ⟨component, next, there⟩ := exists_lookup entries
    have smaller := List.sizeOf_lt_of_mem (mem_of_lookup there)
    obtain ⟨nextFilled, nextPruned⟩ := pruned_branch_iff.mp pruned component next there
    obtain ⟨path, found⟩ := exists_registered next nextFilled nextPruned
    exact ⟨component :: path, by rwa [registered_cons, orDefault_there there]⟩
termination_by m => sizeOf m
decreasing_by
  simp only [Prod.mk.sizeOf_spec] at smaller
  simp only [HandlerMap.branch.sizeOf_spec]
  omega

end Pruning

section Inserting

/-- Nothing is registered on the way of the path or below it. -/
def Free (m : HandlerMap T) (path : List Text) : Prop :=
  ∀ other, (m.registered other).isSome → ¬ other <+: path ∧ ¬ path <+: other

theorem insert_cons (children : List (Text × HandlerMap T)) (component : Text) (path : List Text)
    (handler : T) :
    (HandlerMap.branch children).insert (component :: path) handler =
      (((orDefault children component).insert path handler).1,
        .branch (put component ((orDefault children component).insert path handler).2 children)) :=
        rfl

theorem pruned_child (pruned : Pruned (HandlerMap.branch children)) (component : Text) :
    Pruned (orDefault children component) :=
  allValues_orDefault (fun key next there => (pruned_branch_iff.mp pruned key next there).2)
    pruned_default component

theorem free_cons_iff (children : List (Text × HandlerMap T)) (component : Text)
    (path : List Text) :
    Free (HandlerMap.branch children) (component :: path) ↔
      Free (orDefault children component) path := by
  constructor
  · intro free other found
    have apart := free (component :: other) (by rwa [registered_cons])
    simpa [List.cons_prefix_cons] using apart
  · intro free other found
    cases other with
    | nil => simp at found
    | cons first other =>
      rw [registered_cons] at found
      by_cases same : first = component
      · subst same
        simpa [List.cons_prefix_cons] using free other found
      · simp [List.cons_prefix_cons, same, Ne.symm same]

theorem free_nil_iff (pruned : Pruned m) : Free m [] ↔ m = .branch [] := by
  constructor
  · intro free
    by_contra filled
    obtain ⟨path, found⟩ := exists_registered m filled pruned
    exact (free path found).2 List.nil_prefix
  · rintro rfl path found
    rw [show HandlerMap.branch [] = (default : HandlerMap T) from rfl, registered_default] at found
    simp at found

/-- A handler gets its place exactly if the way to it and everything below is free. -/
theorem insert_ok_iff (pruned : Pruned m) (path : List Text) (handler : T) :
    (m.insert path handler).1 = .ok () ↔ Free m path := by
  induction path generalizing m with
  | nil =>
    rw [free_nil_iff pruned]
    cases m with
    | leaf t => simp [HandlerMap.insert]
    | branch children => cases children <;> simp [HandlerMap.insert]
  | cons component path ih =>
    cases m with
    | leaf t =>
      have taken : ¬ Free (HandlerMap.leaf t) (component :: path) := fun free =>
        (free [] rfl).1 List.nil_prefix
      simp [HandlerMap.insert, taken]
    | branch children =>
      rw [free_cons_iff, insert_cons]
      exact ih (pruned_child pruned component)

theorem insert_default (path : List Text) (handler : T) :
    ((default : HandlerMap T).insert path handler).1 = .ok () := by
  rw [insert_ok_iff pruned_default]
  intro other found
  simp at found

/-- A handler that is turned away changes nothing: the branches on its way were there. -/
theorem insert_error (m : HandlerMap T) (path : List Text) (handler : T)
    (failed : (m.insert path handler).1 ≠ .ok ()) : (m.insert path handler).2 = m := by
  induction path generalizing m with
  | nil =>
    cases m with
    | leaf t => rfl
    | branch children =>
      cases children with
      | nil => exact absurd rfl failed
      | cons entry rest => rfl
  | cons component path ih =>
    cases m with
    | leaf t => rfl
    | branch children =>
      rw [insert_cons] at failed ⊢
      cases there : children.lookup component with
      | none =>
        rw [orDefault_absent there] at failed
        exact absurd (insert_default path handler) failed
      | some next =>
        rw [orDefault_there there] at failed ⊢
        rw [ih next failed, put_eq_self there]

theorem insert_registered (m : HandlerMap T) (path : List Text) (handler : T)
    (done : (m.insert path handler).1 = .ok ()) (other : List Text) :
    (m.insert path handler).2.registered other =
      if other = path then some handler else m.registered other := by
  induction path generalizing m other with
  | nil =>
    cases m with
    | leaf t => simp [HandlerMap.insert] at done
    | branch children =>
      cases children with
      | nil =>
        have before := registered_default (T := T) other
        simp only [HandlerMap.insert, registered_leaf]
        rw [show HandlerMap.branch [] = (default : HandlerMap T) from rfl, before]
      | cons entry rest => simp [HandlerMap.insert] at done
  | cons component path ih =>
    cases m with
    | leaf t => simp [HandlerMap.insert] at done
    | branch children =>
      rw [insert_cons] at done ⊢
      cases other with
      | nil => simp
      | cons first other =>
        rw [registered_cons, registered_cons, orDefault_put]
        by_cases same : first = component
        · subst same
          rw [if_pos rfl, ih _ done]
          simp
        · simp [same]

theorem insert_ne_empty (m : HandlerMap T) (path : List Text) (handler : T) :
    (m.insert path handler).2 ≠ .branch [] := by
  cases m with
  | leaf t => simp [HandlerMap.insert]
  | branch children =>
    cases path with
    | nil => cases children <;> simp [HandlerMap.insert]
    | cons component path => simp [insert_cons, put_ne_nil]

theorem insert_pruned (pruned : Pruned m) (path : List Text) (handler : T) :
    Pruned (m.insert path handler).2 := by
  induction path generalizing m with
  | nil =>
    cases m with
    | leaf t => exact pruned
    | branch children =>
      cases children with
      | nil => exact pruned_leaf handler
      | cons entry rest => exact pruned
  | cons component path ih =>
    cases m with
    | leaf t => exact pruned
    | branch children =>
      rw [insert_cons, pruned_branch_iff]
      exact allValues_put (pruned_branch_iff.mp pruned)
        ⟨insert_ne_empty _ path handler, ih (pruned_child pruned component)⟩ component

end Inserting

section Removing

theorem isEmptyBranch_iff (m : HandlerMap T) : m.isEmptyBranch = true ↔ m = .branch [] := by
  cases m <;> simp [HandlerMap.isEmptyBranch]

theorem remove_default (path : List Text) :
    (default : HandlerMap T).remove path = (none, default) := by
  cases path <;> rfl

/-- A removal below a component changes the entry of the component only. -/
theorem remove_cons (children : List (Text × HandlerMap T)) (component : Text)
    (path : List Text) :
    (HandlerMap.branch children).remove (component :: path) =
      (((orDefault children component).remove path).1,
        .branch (replace HandlerMap.isEmptyBranch component
          ((orDefault children component).remove path).2 children)) := by
  cases there : children.lookup component with
  | none =>
    have empty : (default : HandlerMap T).isEmptyBranch = true := rfl
    rw [orDefault_absent there, remove_default, replace, if_pos empty, remove_of_absent there]
    simp [HandlerMap.remove, there]
  | some next => simp [HandlerMap.remove, there, orDefault_there there]

theorem remove_fst (m : HandlerMap T) (query : List Text) : (m.remove query).1 = m.get query := by
  induction query generalizing m with
  | nil => cases m <;> rfl
  | cons component query ih =>
    cases m with
    | leaf t => rfl
    | branch children =>
      rw [remove_cons, get_cons, ih]

/-- The one path on the way of the query is gone, every other one stays. -/
theorem remove_registered (m : HandlerMap T) (query path : List Text) :
    (m.remove query).2.registered path = if path <+: query then none else m.registered path := by
  induction query generalizing m path with
  | nil => cases m <;> cases path <;> simp [HandlerMap.remove]
  | cons component query ih =>
    cases m with
    | leaf t => cases path <;> simp [HandlerMap.remove]
    | branch children =>
      rw [remove_cons]
      cases path with
      | nil => simp
      | cons first path =>
        rw [registered_cons, registered_cons,
          orDefault_replace fun m => (isEmptyBranch_iff m).mp]
        by_cases same : first = component
        · subst same
          rw [if_pos rfl, ih]
          simp
        · simp [same]

theorem remove_pruned (pruned : Pruned m) (query : List Text) : Pruned (m.remove query).2 := by
  induction query generalizing m with
  | nil =>
    cases m with
    | leaf t => exact pruned_default
    | branch children => exact pruned
  | cons component query ih =>
    cases m with
    | leaf t => exact pruned_default
    | branch children =>
      rw [remove_cons, pruned_branch_iff]
      refine allValues_replace (pruned_branch_iff.mp pruned) (fun filled => ?_) component
      refine ⟨fun empty => ?_, ih (pruned_child pruned component)⟩
      rw [(isEmptyBranch_iff _).mpr empty] at filled
      cases filled

end Removing

section Calls

inductive Call (T : Type) where
  | insert (path : List Text) (handler : T)
  | remove (path : List Text)

def step (m : HandlerMap T) : Call T → HandlerMap T
  | .insert path handler => (m.insert path handler).2
  | .remove path => (m.remove path).2

theorem step_pruned (m : HandlerMap T) (call : Call T) (pruned : Pruned m) :
    Pruned (step m call) := by
  cases call with
  | insert path handler => exact insert_pruned pruned path handler
  | remove path => exact remove_pruned pruned path

/-- The map as it stands is one of handlers at paths of which none begins another. -/
structure IsPrefixFree (m : HandlerMap T) : Prop where
  prefixFree : ∀ p q, (m.registered p).isSome → (m.registered q).isSome → p <+: q → p = q
  filled : ∀ path, path ≠ [] → m.node? path ≠ some (.branch [])
  insert_ok : ∀ path handler, (m.insert path handler).1 = .ok () ↔
    ∀ other, (m.registered other).isSome → ¬ other <+: path ∧ ¬ path <+: other
  insert_adds : ∀ path handler, (m.insert path handler).1 = .ok () → ∀ other,
    (m.insert path handler).2.registered other =
      if other = path then some handler else m.registered other
  insert_keeps : ∀ path handler, (m.insert path handler).1 ≠ .ok () →
    (m.insert path handler).2 = m
  get_finds : ∀ query handler, m.get query = some handler ↔
    ∃ path, path <+: query ∧ m.registered path = some handler
  remove_returns : ∀ query, (m.remove query).1 = m.get query
  remove_drops : ∀ query path, (m.remove query).2.registered path =
    if path <+: query then none else m.registered path

theorem isPrefixFree_of_pruned (pruned : Pruned m) : IsPrefixFree m where
  prefixFree _ _ := registered_prefixFree m
  filled := pruned
  insert_ok := insert_ok_iff pruned
  insert_adds := insert_registered m
  insert_keeps := insert_error m
  get_finds := get_eq_some_iff m
  remove_returns := remove_fst m
  remove_drops := remove_registered m

/-- Whatever is inserted and removed, the map is one of prefix-free paths: at first nothing is
registered, and every call does to the registered paths what it should. -/
theorem handlers_prefixFree (calls : List (Call T)) :
    (∀ path, (default : HandlerMap T).registered path = none) ∧
      IsPrefixFree (run step default calls) :=
  ⟨registered_default, isPrefixFree_of_pruned (run_invariant' step_pruned calls pruned_default)⟩

end Calls

end HandlerMaps
