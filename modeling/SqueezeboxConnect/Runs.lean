import Mathlib.Data.List.Basic

/-!
# Runs of a step function

A component is a state type with a step function, driven by a list of inputs.
`Along` asks a side condition of every step of a run, in the state the step
starts from. Invariants and per-step facts of a run are derived here once.
-/

namespace Runs

universe u v w x
variable {State : Type u} {Input : Type v}

/-- Drive the step function over the inputs, first input first. -/
def run (step : State → Input → State) (s : State) (inputs : List Input) : State :=
  inputs.foldl step s

@[simp] theorem run_nil (step : State → Input → State) (s : State) : run step s [] = s := rfl

@[simp] theorem run_cons (step : State → Input → State) (s : State) (i : Input)
    (rest : List Input) : run step s (i :: rest) = run step (step s i) rest := rfl

theorem run_append (step : State → Input → State) (s : State) (front back : List Input) :
    run step s (front ++ back) = run step (run step s front) back :=
  List.foldl_append

/-- Every step of the run meets `ok` in the state it starts from. -/
def Along (step : State → Input → State) (ok : State → Input → Prop) :
    State → List Input → Prop
  | _, [] => True
  | s, i :: rest => ok s i ∧ Along step ok (step s i) rest

@[simp] theorem along_nil (step : State → Input → State) (ok : State → Input → Prop)
    (s : State) : Along step ok s [] := trivial

@[simp] theorem along_cons (step : State → Input → State) (ok : State → Input → Prop)
    (s : State) (i : Input) (rest : List Input) :
    Along step ok s (i :: rest) ↔ ok s i ∧ Along step ok (step s i) rest := Iff.rfl

theorem along_append (step : State → Input → State) (ok : State → Input → Prop)
    (s : State) (front back : List Input) :
    Along step ok s (front ++ back) ↔
      Along step ok s front ∧ Along step ok (run step s front) back := by
  induction front generalizing s with
  | nil => simp
  | cons i rest ih => simp [ih, and_assoc]

/-- A side condition along a run, read off at each place of the input list. -/
theorem along_iff (step : State → Input → State) (ok : State → Input → Prop)
    (s : State) (inputs : List Input) :
    Along step ok s inputs ↔
      ∀ front i back, inputs = front ++ i :: back → ok (run step s front) i := by
  constructor
  · rintro h front i back rfl
    exact ((along_append step ok s front (i :: back)).mp h).2.1
  · intro h
    induction inputs generalizing s with
    | nil => exact trivial
    | cons i rest ih =>
      refine ⟨h [] i rest rfl, ih (step s i) ?_⟩
      rintro front j back rfl
      exact h (i :: front) j back rfl

variable {inputs : List Input} {step : State → Input → State} {Inv : State → Prop} {s : State}
  {ok : State → Input → Prop}

theorem along_of_forall (step : State → Input → State) {ok : Input → Prop} (s : State)
    (all : ∀ i ∈ inputs, ok i) : Along step (fun _ i => ok i) s inputs := by
  rw [along_iff]
  rintro front i back rfl
  exact all i (by simp)

/-- The invariant rule: what one good step keeps, a run of good steps keeps. -/
theorem run_invariant {step : State → Input → State} {ok : State → Input → Prop}
    {Inv : State → Prop} (keeps : ∀ s i, Inv s → ok s i → Inv (step s i))
    {s : State} {inputs : List Input} (start : Inv s) (good : Along step ok s inputs) :
    Inv (run step s inputs) := by
  induction inputs generalizing s with
  | nil => exact start
  | cons i rest ih => exact ih (keeps s i start good.1) good.2

theorem run_invariant' (keeps : ∀ s i, Inv s → Inv (step s i)) (inputs : List Input)
    (start : Inv s) : Inv (run step s inputs) := by
  induction inputs generalizing s with
  | nil => exact start
  | cons i rest ih => exact ih (keeps s i start)

/-- A good run also meets every further condition that the invariant gives to its steps. -/
theorem along_of_invariant {ok' : State → Input → Prop}
    (keeps : ∀ s i, Inv s → ok s i → Inv (step s i)) (gives : ∀ s i, Inv s → ok s i → ok' s i)
    (start : Inv s) (good : Along step ok s inputs) : Along step ok' s inputs := by
  induction inputs generalizing s with
  | nil => exact trivial
  | cons i rest ih =>
    exact ⟨gives s i start good.1, ih (keeps s i start good.1) good.2⟩

/-- Where a good state stays good exactly by the side condition, every state of a run
is good exactly if the condition is met along it. -/
theorem throughout_iff_along {Good : State → Prop} (keeps : ∀ s i, Inv s → Inv (step s i))
    (stays : ∀ s i, Inv s → Good s → (Good (step s i) ↔ ok s i)) (start : Inv s) (good : Good s) :
    (∀ front, front <+: inputs → Good (run step s front)) ↔ Along step ok s inputs := by
  induction inputs generalizing s with
  | nil =>
    refine ⟨fun _ => trivial, fun _ front initial => ?_⟩
    rw [List.prefix_nil.mp initial]
    exact good
  | cons i rest ih =>
    constructor
    · intro throughout
      have next : Good (step s i) := throughout [i] (by simp)
      refine ⟨(stays s i start good).mp next, (ih (keeps s i start) next).mp ?_⟩
      intro front initial
      exact throughout (i :: front) (List.cons_prefix_cons.mpr ⟨rfl, initial⟩)
    · rintro ⟨here, later⟩ front initial
      have next := (stays s i start good).mpr here
      cases front with
      | nil => exact good
      | cons j front =>
        obtain ⟨rfl, tail⟩ := List.cons_prefix_cons.mp initial
        exact (ih (keeps s j start) next).mpr later front tail

/-- Where the side condition is what a step adds to being good, a run ends in a good state exactly
if it starts in one and the condition is met along it. -/
theorem run_iff_along {Good : State → Prop} (keeps : ∀ s i, Inv s → Inv (step s i))
    (stays : ∀ s i, Inv s → (Good (step s i) ↔ Good s ∧ ok s i)) (start : Inv s) :
    Good (run step s inputs) ↔ Good s ∧ Along step ok s inputs := by
  induction inputs generalizing s with
  | nil => exact (and_iff_left trivial).symm
  | cons i rest ih => rw [run_cons, ih (keeps s i start), stays s i start, along_cons, and_assoc]

/-- Two side conditions that an invariant makes the same for allowed steps, where it is kept,
are met along the same runs. -/
theorem along_iff_along {allowed ok' : State → Input → Prop}
    (same : ∀ s i, Inv s → allowed s i → (ok s i ↔ ok' s i))
    (keeps : ∀ s i, Inv s → allowed s i → ok' s i → Inv (step s i)) (start : Inv s)
    (all : Along step allowed s inputs) : Along step ok s inputs ↔ Along step ok' s inputs := by
  induction inputs generalizing s with
  | nil => exact Iff.rfl
  | cons i rest ih =>
    obtain ⟨here, later⟩ := all
    constructor
    · rintro ⟨first, others⟩
      have good := (same s i start here).mp first
      exact ⟨good, (ih (keeps s i start here good) later).mp others⟩
    · rintro ⟨good, others⟩
      exact ⟨(same s i start here).mpr good, (ih (keeps s i start here good) later).mpr others⟩

/-- The simulation rule: what relates two components is kept by a step of both. -/
theorem run_simulates {State' : Type w} {step' : State' → Input → State'} {ok : Input → Prop}
    {Related : State → State' → Prop}
    (keeps : ∀ s s' i, Related s s' → ok i → Related (step s i) (step' s' i)) {s' : State'}
    (start : Related s s') (good : ∀ i ∈ inputs, ok i) :
    Related (run step s inputs) (run step' s' inputs) := by
  induction inputs generalizing s s' with
  | nil => exact start
  | cons i rest ih =>
    exact ih (keeps s s' i start (good i (by simp))) fun j inside => good j (by simp [inside])

section Answers

variable {Answer : Type w} {State' : Type x}

/-- The answers of a component that gives one at each step. -/
def answers (step : State → Input → Answer × State) : State → List Input → List Answer
  | _, [] => []
  | s, i :: rest => (step s i).1 :: answers step (step s i).2 rest

/-- The lockstep rule: where related components agree in a safe step exactly by the side
condition, and stay related then, they agree in a run exactly if it is met along the run. -/
theorem answers_eq_iff_along {step : State → Input → Answer × State}
    {step' : State' → Input → Answer × State'} {safe : State → Input → Prop}
    {Related : State → State' → Prop}
    (agree : ∀ s s' i, Related s s' → ((step s i).1 = (step' s' i).1 ∧ safe s i ↔ ok s i))
    (keeps : ∀ s s' i, Related s s' → ok s i → Related (step s i).2 (step' s' i).2) {s' : State'}
    (inputs : List Input) (start : Related s s') :
    answers step s inputs = answers step' s' inputs ∧
        Along (fun s i => (step s i).2) safe s inputs ↔
      Along (fun s i => (step s i).2) ok s inputs := by
  induction inputs generalizing s s' with
  | nil => exact ⟨fun _ => trivial, fun _ => ⟨rfl, trivial⟩⟩
  | cons i rest ih =>
    constructor
    · rintro ⟨same, here, later⟩
      obtain ⟨first, others⟩ := List.cons.inj same
      have good := (agree s s' i start).mp ⟨first, here⟩
      exact ⟨good, (ih (keeps s s' i start good)).mp ⟨others, later⟩⟩
    · rintro ⟨good, later⟩
      obtain ⟨first, here⟩ := (agree s s' i start).mpr good
      obtain ⟨others, safely⟩ := (ih (keeps s s' i start good)).mpr later
      exact ⟨congrArg₂ List.cons first others, here, safely⟩

end Answers

end Runs
