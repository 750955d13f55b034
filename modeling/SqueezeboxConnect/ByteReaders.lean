import Mathlib.Data.List.Basic

/-!
# Readers over a sequence of elements

A reader fills a buffer of the size it is given: it returns some elements, or
fails, or waits for ever. A relation between a reader and what is left of a
sequence is tracked when every successful read takes its result off the front
of that sequence; the successful reads up to the first failure then return a
prefix of it. Readers stacked on one another are treated layer by layer.
-/

namespace ByteReaders

universe u v w

/-- `none` is a read that never returns. -/
class Reader (R : Type u) (E : outParam (Type v)) (B : outParam (Type w)) where
  read : R → Nat → Option (Except E (List B) × R)

variable {R : Type u} {E : Type v} {B : Type w} [Reader R E B]

/-- The results of successive reads, up to one that does not return. -/
def reads : R → List Nat → List (Except E (List B))
  | _, [] => []
  | r, size :: sizes =>
    match Reader.read r size with
    | none => []
    | some (result, r') => result :: reads r' sizes

theorem reads_eq_cons {r : R} {sizes : List Nat} {result : Except E (List B)}
    {results : List (Except E (List B))} (h : reads r sizes = result :: results) :
    ∃ size rest r', sizes = size :: rest ∧ Reader.read r size = some (result, r') ∧
      reads r' rest = results := by
  cases sizes with
  | nil => cases h
  | cons size rest =>
    simp only [reads] at h
    cases read : Reader.read r size with
    | none => rw [read] at h; cases h
    | some next =>
      rw [read] at h
      obtain ⟨rfl, later⟩ := List.cons.inj h
      exact ⟨size, rest, next.2, rfl, read, later⟩

/-- The elements returned up to the first failure. -/
def untilError : List (Except E (List B)) → List B
  | .ok bytes :: rest => bytes ++ untilError rest
  | .error _ :: _ => []
  | [] => []

/-- Successive reads up to the first failure: what they returned, the failure, and
the reader they leave. -/
def readThrough : R → List Nat → List B × Option E × R
  | r, [] => ([], none, r)
  | r, size :: sizes =>
    match Reader.read r size with
    | none => ([], none, r)
    | some (.error e, r') => ([], some e, r')
    | some (.ok bytes, r') =>
      let (rest, failure, last) := readThrough r' sizes
      (bytes ++ rest, failure, last)

/-- Every element returned, also after a failure. -/
def returned (results : List (Except E (List B))) : List B :=
  results.flatMap fun
    | .ok bytes => bytes
    | .error _ => []

/-- A successful read takes its result off the front of what is left. -/
def Tracks (left : R → List B → Prop) : Prop :=
  ∀ r rest size bytes r', left r rest → Reader.read r size = some (.ok bytes, r') →
    bytes.length ≤ size ∧ ∃ rest', rest = bytes ++ rest' ∧ left r' rest'

theorem reads_isPrefix {left : R → List B → Prop} (tracks : Tracks left) {r : R} {rest : List B}
    (h : left r rest) (sizes : List Nat) : untilError (reads r sizes) <+: rest := by
  induction sizes generalizing r rest with
  | nil => exact List.nil_prefix
  | cons size sizes ih =>
    simp only [reads]
    cases hread : Reader.read r size with
    | none => exact List.nil_prefix
    | some result =>
      obtain ⟨outcome, r'⟩ := result
      cases outcome with
      | error e => exact List.nil_prefix
      | ok bytes =>
        obtain ⟨_, rest', rfl, h'⟩ := tracks r rest size bytes r' h hread
        exact (List.prefix_append_right_inj bytes).mpr (ih h')

theorem readThrough_ok {r r' : R} {size : Nat} {bytes : List B} (sizes : List Nat)
    (h : Reader.read r size = some (.ok bytes, r')) :
    readThrough r (size :: sizes) = (bytes ++ (readThrough r' sizes).1,
      (readThrough r' sizes).2) := by
  rw [readThrough, h]

theorem readThrough_error {r r' : R} {size : Nat} {e : E} (sizes : List Nat)
    (h : Reader.read r size = some (.error e, r')) :
    readThrough r (size :: sizes) = ([], some e, r') := by
  rw [readThrough, h]

end ByteReaders
