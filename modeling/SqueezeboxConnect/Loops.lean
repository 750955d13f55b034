import Mathlib.Init

/-!
# Loops that need not end

The body of a loop gives either the state for the next turn or a result. `loop`
runs it with fuel. What is said without fuel is in terms of the states that are
reached: a loop finishes exactly if it reaches a state whose turn gives a result,
it does so if something decreases with every turn, and it never does if there is
always another turn.
-/

namespace Loops

universe u v

variable {State : Type u} {Result : Type v}

/-- Turn after turn until there is a result, as long as there is fuel. -/
def loop (step : State → State ⊕ Result) : Nat → State → Option Result
  | 0, _ => none
  | fuel + 1, s =>
    match step s with
    | .inl next => loop step fuel next
    | .inr result => some result

def Finishes (step : State → State ⊕ Result) (s : State) (result : Result) : Prop :=
  ∃ fuel, loop step fuel s = some result

/-- The states at the beginnings of the turns. -/
inductive Reached (step : State → State ⊕ Result) (first : State) : State → Prop
  | start : Reached step first first
  | turn {s next : State} : Reached step first s → step s = .inl next → Reached step first next

variable {step : State → State ⊕ Result}

theorem Reached.head {s next t : State} (turn : step s = .inl next) (later : Reached step next t) :
    Reached step s t := by
  induction later with
  | start => exact .turn .start turn
  | turn _ again ih => exact .turn ih again

theorem finishes_inr {s : State} {result : Result} (last : step s = .inr result)
    (other : Result) : Finishes step s other ↔ other = result := by
  constructor
  · rintro ⟨fuel, done⟩
    cases fuel with
    | zero => cases done
    | succ fuel =>
      simp only [loop, last] at done
      exact (Option.some.inj done).symm
  · rintro rfl
    refine ⟨1, ?_⟩
    simp only [loop, last]

theorem finishes_inl {s next : State} (turn : step s = .inl next) (result : Result) :
    Finishes step s result ↔ Finishes step next result := by
  constructor
  · rintro ⟨fuel, done⟩
    cases fuel with
    | zero => cases done
    | succ fuel =>
      simp only [loop, turn] at done
      exact ⟨fuel, done⟩
  · rintro ⟨fuel, done⟩
    refine ⟨fuel + 1, ?_⟩
    simp only [loop, turn]
    exact done

variable {first : State}

theorem Reached.finishes_iff {s : State} (reached : Reached step first s) (result : Result) :
    Finishes step first result ↔ Finishes step s result := by
  induction reached with
  | start => rfl
  | turn _ again ih => exact ih.trans (finishes_inl again result)

theorem reached_of_finishes {result : Result} (done : Finishes step first result) :
    ∃ s, Reached step first s ∧ step s = .inr result := by
  obtain ⟨fuel, done⟩ := done
  induction fuel generalizing first with
  | zero => cases done
  | succ fuel ih =>
    cases turn : step first with
    | inl next =>
      simp only [loop, turn] at done
      obtain ⟨s, reached, last⟩ := ih done
      exact ⟨s, .head turn reached, last⟩
    | inr other =>
      simp only [loop, turn, Option.some.injEq] at done
      exact ⟨first, .start, done ▸ turn⟩

theorem Reached.invariant (Inv : State → Prop) {s : State}
    (keeps : ∀ s next, Inv s → step s = .inl next → Inv next) (start : Inv first)
    (reached : Reached step first s) : Inv s := by
  induction reached with
  | start => exact start
  | turn _ again ih => exact keeps _ _ ih again

theorem finishes_of_variant (measure : State → Nat)
    (decreases : ∀ s next, Reached step first s → step s = .inl next → measure next < measure s) :
    ∃ result, Finishes step first result := by
  have bounded : ∀ bound s, Reached step first s → measure s < bound →
      ∃ result, Finishes step s result := by
    intro bound
    induction bound with
    | zero => exact fun s _ none => absurd none (Nat.not_lt_zero _)
    | succ bound ih =>
      intro s reached below
      cases turn : step s with
      | inr result => exact ⟨result, (finishes_inr turn result).mpr rfl⟩
      | inl next =>
        have less := decreases s next reached turn
        obtain ⟨result, done⟩ := ih next (.turn reached turn) (by omega)
        exact ⟨result, (finishes_inl turn result).mpr done⟩
  exact bounded _ first .start (Nat.lt_succ_self _)

/-- A loop that always has another turn. -/
theorem endless (Inv : State → Prop) (start : Inv first)
    (goes : ∀ s, Inv s → ∃ next, step s = .inl next ∧ Inv next) (fuel : Nat) :
    loop step fuel first = none := by
  induction fuel generalizing first with
  | zero => rfl
  | succ fuel ih =>
    obtain ⟨next, turn, again⟩ := goes first start
    simp only [loop, turn]
    exact ih again

end Loops
